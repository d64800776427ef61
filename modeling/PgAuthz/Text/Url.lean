import Mathlib.Tactic.Common
import Mathlib.Data.List.TakeWhile

/-!
# URLs as bytes

A URL is parsed in the order of `net/url`: the fragment is cut off at the first `#`, control
characters are refused in what is left, the query is cut off at the first `?`, and the path behind
the scheme and the authority is percent-decoded, as is the fragment.

## Main definitions

* `utf8`: the bytes of a text
* `unescape`: percent-decoding, which fails on an incomplete escape
* `Origin`, `parsePath`: a scheme with an authority, and the parsed path of a URL

## Main results

* `unescape_append_slash`: a slash ends every escape
* `unescape_eq_or_lt`: decoding leaves a text as it is, or makes it shorter
* `parsePath_append`: the parsed path of a URL with a given origin
* `parseTarget_append`: the target after a mark is dropped, and without one it is decoded
-/

namespace Url

/-- Texts as the bytes that are sent. -/
abbrev Bytes := List UInt8

/-- The bytes of a text. -/
def utf8 (s : String) : Bytes := s.toByteArray.data.toList

theorem utf8_injective : Function.Injective utf8 := fun _ _ h =>
  String.toByteArray_inj.mp (ByteArray.ext (Array.toList_inj.mp h))

theorem utf8_append (s t : String) : utf8 (s ++ t) = utf8 s ++ utf8 t := by
  simp [utf8, String.toByteArray_append]

/-- `/`. -/
def slash : UInt8 := 0x2F

/-- `?`. -/
def question : UInt8 := 0x3F

/-- `#`. -/
def hash : UInt8 := 0x23

/-- `%`. -/
def percent : UInt8 := 0x25

/-- `:`. -/
def colon : UInt8 := 0x3A

/-- A control character. -/
def isCtl (b : UInt8) : Bool := b < 0x20 || b == 0x7F

/-- The value of a hexadecimal digit. -/
def hexValue (b : UInt8) : Option UInt8 :=
  if 0x30 ≤ b ∧ b ≤ 0x39 then some (b - 0x30)
  else if 0x61 ≤ b ∧ b ≤ 0x66 then some (b - 0x61 + 10)
  else if 0x41 ≤ b ∧ b ≤ 0x46 then some (b - 0x41 + 10)
  else none

/-- Percent-decoding, unless an escape is incomplete. -/
def unescape : Bytes → Option Bytes
  | [] => some []
  | c :: rest =>
    if c = percent then
      match rest with
      | hi :: lo :: rest =>
        match hexValue hi, hexValue lo with
        | some x, some y => (unescape rest).map ((16 * x + y) :: ·)
        | _, _ => none
      | _ => none
    else (unescape rest).map (c :: ·)

/-! ## Decoding -/

theorem unescape_cons_of_ne {c : UInt8} (hc : c ≠ percent) (rest : Bytes) :
    unescape (c :: rest) = (unescape rest).map (c :: ·) := by
  conv_lhs => unfold unescape
  rw [if_neg hc]

theorem unescape_percent (hi lo : UInt8) (rest : Bytes) :
    unescape (percent :: hi :: lo :: rest) = (hexValue hi).bind fun x =>
      (hexValue lo).bind fun y => (unescape rest).map ((16 * x + y) :: ·) := by
  conv_lhs => unfold unescape
  rw [if_pos rfl]
  dsimp only
  cases hexValue hi <;> cases hexValue lo <;> rfl

/-- An escape that a slash cuts off. -/
theorem unescape_percent_slash {rest : Bytes} (hshort : rest.length < 2) (b : Bytes) :
    unescape (percent :: (rest ++ slash :: b)) = none := by
  have hnone : hexValue slash = none := by decide
  match rest, hshort with
  | [], _ =>
    cases b with
    | nil => rfl
    | cons c b => rw [List.nil_append, unescape_percent, hnone, Option.bind_none]
  | [hi], _ =>
    rw [List.singleton_append, unescape_percent, hnone]
    simp

/-- A text without escapes is left as it is. -/
theorem unescape_of_no_percent {l : Bytes} (h : ∀ c ∈ l, c ≠ percent) : unescape l = some l := by
  induction l with
  | nil => rfl
  | cons c rest ih =>
    rw [unescape_cons_of_ne (h c List.mem_cons_self),
      ih fun c' hc' => h c' (List.mem_cons_of_mem c hc')]
    rfl

/-- A text without escapes is left as it is before any other. -/
theorem unescape_append_of_no_percent {a : Bytes} (h : ∀ c ∈ a, c ≠ percent) (l : Bytes) :
    unescape (a ++ l) = (unescape l).map (a ++ ·) := by
  induction a with
  | nil => simp
  | cons c rest ih =>
    rw [List.cons_append, unescape_cons_of_ne (h c List.mem_cons_self),
      ih fun c' hc' => h c' (List.mem_cons_of_mem c hc'), Option.map_map]
    rfl

/-- **A slash ends every escape**, so what stands before it is decoded on its own. -/
theorem unescape_append_slash (a b : Bytes) :
    unescape (a ++ slash :: b) =
      (unescape a).bind fun a' => (unescape b).map fun b' => a' ++ slash :: b' := by
  have hslash : unescape (slash :: b) = (unescape b).map (slash :: ·) :=
    unescape_cons_of_ne (by decide) b
  fun_induction unescape a with
  | case1 => simp [hslash]
  | case2 hi lo rest x y hx hy ih =>
    simp only [List.cons_append]
    rw [unescape_percent, hx, hy, Option.bind_some, Option.bind_some, ih]
    cases unescape rest <;> cases unescape b <;> rfl
  | case3 hi lo rest hnone =>
    simp only [List.cons_append]
    rw [unescape_percent]
    cases hhi : hexValue hi with
    | none => rfl
    | some x =>
      cases hlo : hexValue lo with
      | none => rfl
      | some y => exact absurd hlo (hnone x y hhi)
  | case4 rest hshort =>
    refine unescape_percent_slash ?_ b
    match rest, hshort with
    | [], _ => decide
    | [hi], _ => simp
    | hi :: lo :: rest, hshort => exact absurd rfl (hshort hi lo rest)
  | case5 c rest hc ih =>
    rw [List.cons_append, unescape_cons_of_ne hc, ih]
    cases unescape rest <;> cases unescape b <;> rfl

/-- **Decoding leaves a text as it is, or makes it shorter.** -/
theorem unescape_eq_or_lt {l l' : Bytes} (h : unescape l = some l') :
    l' = l ∨ l'.length < l.length := by
  fun_induction unescape l generalizing l' with
  | case1 => exact .inl (by simpa using h.symm)
  | case2 hi lo rest x hx y hy ih =>
    obtain ⟨r, hr, rfl⟩ := Option.map_eq_some_iff.mp h
    right
    have hlen : r.length ≤ rest.length := by
      rcases ih hr with rfl | hlt <;> omega
    simp only [List.length_cons]
    omega
  | case3 | case4 => cases h
  | case5 c rest hc ih =>
    obtain ⟨r, hr, rfl⟩ := Option.map_eq_some_iff.mp h
    rcases ih hr with rfl | hlt
    · exact .inl rfl
    · right
      simp only [List.length_cons]
      omega

/-! ## Parsing -/

/-- The part of a URL behind its authority, as it is parsed: the path, unless the target is refused.
A query is not decoded. -/
def parseTarget (t : Bytes) : Option Bytes :=
  let u := t.takeWhile (· ≠ hash)
  let fragment := (t.dropWhile (· ≠ hash)).tail
  if u.any isCtl then none
  else (unescape (u.takeWhile (· ≠ question))).bind fun path =>
    (unescape fragment).map fun _ => path

/-- The scheme and the authority of a URL. -/
structure Origin where
  scheme : Bytes
  authority : Bytes
  scheme_letters : ∀ b ∈ scheme, b ≠ colon ∧ b ≠ hash ∧ b ≠ question ∧ isCtl b = false
  authority_host : ∀ b ∈ authority, b ≠ slash ∧ b ≠ hash ∧ b ≠ question ∧ isCtl b = false

/-- The text of an origin. -/
def Origin.text (o : Origin) : Bytes := o.scheme ++ colon :: slash :: slash :: o.authority

/-- The parsed path of a URL with a scheme and an authority. -/
def parsePath (url : Bytes) : Option Bytes :=
  let u := url.takeWhile (· ≠ hash)
  let fragment := (url.dropWhile (· ≠ hash)).tail
  if u.any isCtl then none
  else
    let rest := ((u.dropWhile (· ≠ colon)).tail.takeWhile (· ≠ question)).drop 2
    (unescape (rest.dropWhile (· ≠ slash))).bind fun path => (unescape fragment).map fun _ => path

theorem takeWhile_append_of_all {p : UInt8 → Bool} {a : Bytes} (h : ∀ b ∈ a, p b = true) (l : Bytes) :
    (a ++ l).takeWhile p = a ++ l.takeWhile p := List.takeWhile_append_of_pos h

theorem dropWhile_append_of_all {p : UInt8 → Bool} {a : Bytes} (h : ∀ b ∈ a, p b = true) (l : Bytes) :
    (a ++ l).dropWhile p = l.dropWhile p := List.dropWhile_append_of_pos h

theorem Origin.mem_text {o : Origin} {b : UInt8} (hb : b ∈ o.text) :
    b ≠ hash ∧ b ≠ question ∧ isCtl b = false := by
  rcases List.mem_append.mp hb with hb | hb
  · exact (o.scheme_letters b hb).2
  · rcases List.mem_cons.mp hb with rfl | hb
    · decide
    rcases List.mem_cons.mp hb with rfl | hb
    · decide
    rcases List.mem_cons.mp hb with rfl | hb
    · decide
    · exact (o.authority_host b hb).2

/-- **The parsed path of a URL with a given origin** is that of the target behind it. -/
theorem parsePath_append (o : Origin) (t : Bytes) :
    parsePath (o.text ++ slash :: t) = parseTarget (slash :: t) := by
  have hhash : ∀ b ∈ o.text, decide (b ≠ hash) = true := fun b hb => by
    simpa using (Origin.mem_text hb).1
  have hctl : o.text.any isCtl = false := by
    rw [List.any_eq_false]
    exact fun b hb => by simp [(Origin.mem_text hb).2.2]
  unfold parsePath parseTarget
  rw [takeWhile_append_of_all hhash, dropWhile_append_of_all hhash]
  simp only [List.any_append, hctl, Bool.false_or]
  congr 1
  -- behind the scheme stand two slashes and the authority
  have hscheme : ∀ l : Bytes, ((o.text ++ l).dropWhile (· ≠ colon)).tail =
      slash :: slash :: o.authority ++ l := by
    intro l
    rw [Origin.text, List.append_assoc, dropWhile_append_of_all fun b hb => by
      simpa using (o.scheme_letters b hb).1]
    simp
  have hslash : decide (slash ≠ hash) = true := by decide
  have hslash' : decide (slash ≠ question) = true := by decide
  have hauthority : ∀ b ∈ slash :: slash :: o.authority, decide (b ≠ question) = true := by
    intro b hb
    rcases List.mem_cons.mp hb with rfl | hb
    · exact hslash'
    rcases List.mem_cons.mp hb with rfl | hb
    · exact hslash'
    · simpa using (o.authority_host b hb).2.2.1
  rw [hscheme, takeWhile_append_of_all hauthority]
  show (unescape ((o.authority ++ _).dropWhile (· ≠ slash))).bind _ = _
  rw [dropWhile_append_of_all fun b hb => by simpa using (o.authority_host b hb).1]
  simp only [List.takeWhile_cons, hslash, hslash', if_true]
  rfl

/-- The part of a text before its first `?` or `#`. -/
def pathPart (s : Bytes) : Bytes := s.takeWhile fun b => b ≠ question ∧ b ≠ hash

/-- The part of a text before its first `#` has no control characters, and the part behind it decodes. -/
def parsable (s : Bytes) : Bool :=
  !(s.takeWhile (· ≠ hash)).any isCtl && (unescape (s.dropWhile (· ≠ hash)).tail).isSome

theorem takeWhile_takeWhile_question (s : Bytes) :
    (s.takeWhile (· ≠ hash)).takeWhile (· ≠ question) = pathPart s := by
  rw [pathPart, List.takeWhile_takeWhile]
  congr 1
  ext b
  simp

/-- A byte that parsing leaves as it is. -/
def Plain (b : UInt8) : Prop := b ≠ hash ∧ b ≠ question ∧ b ≠ percent ∧ isCtl b = false

instance (b : UInt8) : Decidable (Plain b) := inferInstanceAs (Decidable (_ ∧ _))

theorem plain_slash : Plain slash := by decide

section Target

variable {a z : Bytes}

/-- Cutting a text at a byte that it has does not look at what follows. -/
theorem cut_append_of_mem {c : UInt8} {s : Bytes} (h : c ∈ s) (l : Bytes) :
    (s ++ l).takeWhile (· ≠ c) = s.takeWhile (· ≠ c) ∧
      ((s ++ l).dropWhile (· ≠ c)).tail = (s.dropWhile (· ≠ c)).tail ++ l := by
  induction s with
  | nil => cases h
  | cons b s ih =>
    by_cases hb : b = c
    · simp [hb]
    · have hmem : c ∈ s := by
        rcases List.mem_cons.mp h with rfl | hmem
        · exact absurd rfl hb
        · exact hmem
      simp only [List.cons_append, List.takeWhile_cons, List.dropWhile_cons, ne_eq, hb,
        not_false_eq_true, decide_true, if_true]
      exact ⟨congrArg (b :: ·) (ih hmem).1, (ih hmem).2⟩

/-- Cutting a text at a byte that it does not have. -/
theorem cut_of_not_mem {c : UInt8} {s : Bytes} (h : c ∉ s) :
    s.takeWhile (· ≠ c) = s ∧ s.dropWhile (· ≠ c) = [] := by
  have hall : ∀ b ∈ s, decide (b ≠ c) = true := fun b hb => by
    simp only [ne_eq, decide_not, Bool.not_eq_true', decide_eq_false_iff_not]
    rintro rfl
    exact h hb
  exact ⟨List.takeWhile_eq_self_iff.mpr hall, List.dropWhile_eq_nil_iff.mpr hall⟩

theorem pathPart_eq_self_iff {s : Bytes} : pathPart s = s ↔ question ∉ s ∧ hash ∉ s := by
  rw [pathPart, List.takeWhile_eq_self_iff]
  constructor
  · intro h
    exact ⟨fun hq => by simpa using h _ hq, fun hh => by simpa using h _ hh⟩
  · rintro ⟨hq, hh⟩ b hb
    simp only [Bool.decide_and, Bool.and_eq_true, decide_eq_true_eq]
    exact ⟨fun heq => hq (heq ▸ hb), fun heq => hh (heq ▸ hb)⟩

/-- **A text inside a target.** Without a mark it is decoded in place; behind its first mark it is
dropped with all that follows. -/
theorem parseTarget_append (ha : ∀ b ∈ a, Plain b) (hz : ∀ b ∈ z, Plain b) (s : Bytes) :
    parseTarget (a ++ (s ++ slash :: z)) =
      if parsable s then
        (unescape (pathPart s)).map fun p => a ++ (p ++ if pathPart s = s then slash :: z else [])
      else none := by
  have hz' : ∀ b ∈ slash :: z, Plain b := List.forall_mem_cons.mpr ⟨plain_slash, hz⟩
  have hahash : ∀ b ∈ a, decide (b ≠ hash) = true := fun b hb => by simpa using (ha b hb).1
  have haquestion : ∀ b ∈ a, decide (b ≠ question) = true := fun b hb => by
    simpa using (ha b hb).2.1
  have hactl : a.any isCtl = false := by
    simpa [List.any_eq_false] using fun b hb => (ha b hb).2.2.2
  have hzctl : (slash :: z).any isCtl = false := by
    rw [List.any_eq_false]
    exact fun b hb => by simp [(hz' b hb).2.2.2]
  have hzplain : unescape z = some z := unescape_of_no_percent fun b hb => (hz b hb).2.2.1
  unfold parseTarget parsable
  rw [takeWhile_append_of_all hahash, dropWhile_append_of_all hahash]
  simp only [List.any_append, hactl, Bool.false_or]
  rw [takeWhile_append_of_all haquestion,
    unescape_append_of_no_percent fun b hb => (ha b hb).2.2.1]
  by_cases hh : hash ∈ s
  · -- all that follows the text belongs to the fragment
    obtain ⟨htake, hdrop⟩ := cut_append_of_mem hh (slash :: z)
    have hne : pathPart s ≠ s := fun heq => (pathPart_eq_self_iff.mp heq).2 hh
    rw [htake, hdrop, takeWhile_takeWhile_question, unescape_append_slash, hzplain, if_neg hne]
    generalize (s.takeWhile (· ≠ hash)).any isCtl = ctl
    cases ctl with
    | true => simp
    | false => cases unescape (s.dropWhile (· ≠ hash)).tail <;> cases unescape (pathPart s) <;> simp
  · have hzhash : hash ∉ slash :: z := fun hmem => (hz' _ hmem).1 rfl
    have happend : hash ∉ s ++ slash :: z := fun hmem => by
      rcases List.mem_append.mp hmem with hmem | hmem
      · exact hh hmem
      · exact hzhash hmem
    rw [(cut_of_not_mem happend).1, (cut_of_not_mem happend).2, (cut_of_not_mem hh).1,
      (cut_of_not_mem hh).2]
    simp only [List.any_append, hzctl, Bool.or_false]
    have hpart : pathPart s = s.takeWhile (· ≠ question) := by
      rw [← takeWhile_takeWhile_question, (cut_of_not_mem hh).1]
    by_cases hq : question ∈ s
    · have hne : pathPart s ≠ s := fun heq => (pathPart_eq_self_iff.mp heq).1 hq
      rw [(cut_append_of_mem hq (slash :: z)).1, ← hpart, if_neg hne]
      generalize s.any isCtl = ctl
      cases ctl with
      | true => simp
      | false => cases unescape (pathPart s) <;> simp [unescape]
    · have heq : pathPart s = s := pathPart_eq_self_iff.mpr ⟨hq, hh⟩
      have hzquestion : question ∉ slash :: z := fun hmem => (hz' _ hmem).2.1 rfl
      have happend' : question ∉ s ++ slash :: z := fun hmem => by
        rcases List.mem_append.mp hmem with hmem | hmem
        · exact hq hmem
        · exact hzquestion hmem
      rw [(cut_of_not_mem happend').1, if_pos heq, heq, unescape_append_slash, hzplain]
      generalize s.any isCtl = ctl
      cases ctl with
      | true => simp
      | false => cases unescape s <;> simp [unescape]

end Target

end Url
