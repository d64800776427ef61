import PgAuthz.Text.Patterns
import Mathlib.Tactic.Ring
import Mathlib.Tactic.IntervalCases

/-!
# Windows

The window of a gate is the text of an interval of days and microseconds. The validator accepts unit text,
ISO-8601 text and what the database prints for such an interval. In print (`IntervalStyle` at its default)
the days come first, then the time with two digits or more for the hours; hours are not carried over into
days. None of the accepted texts can name months or years.

## Main definitions

* `Interval`, `Interval.text`: an interval, and what the database prints for it
* `castInterval`: the cast of a text
* `windowForm`: the texts that the validator accepts

## Main results

* `castInterval_text`: the cast of what is printed
* `windowForm_text_iff`: the validator accepts what is printed when the time is below 100 hours
-/

namespace PgAuthz.Gates

open RegularExpression Patterns

/-! ## Intervals and their text -/

/-- An interval without months, in the range of its type. -/
@[ext]
structure Interval where
  days : ℕ
  micros : ℕ
  days_lt : days < 2 ^ 31
  micros_lt : micros < 2 ^ 63
deriving DecidableEq

namespace Interval

/-- The interval is longer than zero. -/
def positive (iv : Interval) : Bool := 0 < iv.days || 0 < iv.micros

/-- The hours of the time. -/
def hours (iv : Interval) : ℕ := iv.micros / 3600000000

/-- The minutes of the time. -/
def minutes (iv : Interval) : ℕ := iv.micros / 60000000 % 60

/-- The seconds of the time. -/
def seconds (iv : Interval) : ℕ := iv.micros / 1000000 % 60

/-- The part of the time below a second, in microseconds. -/
def fraction (iv : Interval) : ℕ := iv.micros % 1000000

/-- The digits of the fraction, behind a point. -/
def fractionText (iv : Interval) : List Char :=
  if iv.fraction = 0 then [] else '.' :: trimZeros (padded 6 iv.fraction)

/-- The time. -/
def timeText (iv : Interval) : List Char :=
  padded 2 iv.hours ++ ':' :: (padded 2 iv.minutes ++ ':' :: (padded 2 iv.seconds ++ iv.fractionText))

/-- The days. -/
def dayText (iv : Interval) : List Char :=
  Nat.toDigits 10 iv.days ++ (if iv.days = 1 then [' ', 'd', 'a', 'y'] else [' ', 'd', 'a', 'y', 's'])

/-- The characters that the database prints for an interval. -/
def chars (iv : Interval) : List Char :=
  if iv.days = 0 then iv.timeText
  else if iv.micros = 0 then iv.dayText
  else iv.dayText ++ ' ' :: iv.timeText

/-- What the database prints for an interval. -/
def text (iv : Interval) : String := String.ofList iv.chars

end Interval

/-! ## The cast of a text -/

/-- The units of fixed length. -/
inductive TimeUnit
  | second
  | minute
  | hour
  | day
  | week
deriving DecidableEq, Repr

/-- The names of a unit. -/
def TimeUnit.names : TimeUnit → List (List Char)
  | second => ["s", "sec", "secs", "second", "seconds"].map String.toList
  | minute => ["m", "min", "mins", "minute", "minutes"].map String.toList
  | hour => ["h", "hr", "hrs", "hour", "hours"].map String.toList
  | day => ["d", "day", "days"].map String.toList
  | week => ["w", "week", "weeks"].map String.toList

/-- All units. -/
def TimeUnit.all : List TimeUnit := [second, minute, hour, day, week]

/-- The unit of a name; case does not matter. -/
def TimeUnit.ofName (name : List Char) : Option TimeUnit :=
  all.find? fun u => u.names.contains (name.map Char.toLower)

/-- A part of an interval: an amount of a unit, or a time. -/
inductive Field
  | amount (n : ℕ) (unit : TimeUnit)
  | time (hour minute second : ℕ) (fraction : List Char)
deriving DecidableEq

/-- The units that a part is about. -/
def Field.units : Field → List TimeUnit
  | amount _ unit => [unit]
  | time .. => [.hour, .minute, .second]

/-- The days of a part. -/
def Field.days : Field → ℕ
  | amount n .day => n
  | amount n .week => 7 * n
  | _ => 0

/-- The microseconds that the digits behind a point are worth, rounded to an even number at half. -/
def fractionMicros (ds : List Char) : ℕ :=
  if ds.length ≤ 6 then Nat.ofDigitChars 10 (ds.rightpad 6 '0') 0
  else
    let q := 10 ^ (ds.length - 6)
    let n := Nat.ofDigitChars 10 ds 0
    if 2 * (n % q) < q ∨ 2 * (n % q) = q ∧ n / q % 2 = 0 then n / q else n / q + 1

/-- The microseconds of a part. -/
def Field.micros : Field → ℕ
  | amount n .second => n * 1000000
  | amount n .minute => n * 60000000
  | amount n .hour => n * 3600000000
  | amount _ _ => 0
  | time h m s fraction => h * 3600000000 + m * 60000000 + s * 1000000 + fractionMicros fraction

/-- The minutes and seconds of a time are in range. -/
def Field.inRange : Field → Bool
  | amount .. => true
  | time _ m s _ => m < 60 && s ≤ 60

section Days

variable (n : ℕ)

@[simp]
theorem Field.units_day : (Field.amount n .day).units = [.day] := rfl

@[simp]
theorem Field.days_day : (Field.amount n .day).days = n := rfl

@[simp]
theorem Field.micros_day : (Field.amount n .day).micros = 0 := rfl

@[simp]
theorem Field.inRange_day : (Field.amount n .day).inRange = true := rfl

end Days

/-- White space. -/
def spaces : List Char := [' ', '\t', '\n', '\x0b', '\x0c', '\x0d']

/-- The digits. -/
def digits : List Char := ['0', '1', '2', '3', '4', '5', '6', '7', '8', '9']

/-- The minutes, the seconds and the digits of a fraction, behind the hours and a colon. -/
def readTime (hour : ℕ) (cs : List Char) : Option (Field × List Char) :=
  match cs.dropWhile Char.isDigit with
  | ':' :: rest =>
    let minute := Nat.ofDigitChars 10 (cs.takeWhile Char.isDigit) 0
    let second := Nat.ofDigitChars 10 (rest.takeWhile Char.isDigit) 0
    match rest.dropWhile Char.isDigit with
    | '.' :: rest =>
      some (.time hour minute second (rest.takeWhile Char.isDigit), rest.dropWhile Char.isDigit)
    | rest => some (.time hour minute second [], rest)
  | _ => none

/-- The parts of a text: each begins with digits. The first argument bounds their number. -/
def readFields : ℕ → List Char → Option (List Field)
  | 0, _ => none
  | fuel + 1, text =>
    match text.dropWhile fun c => spaces.contains c with
    | [] => some []
    | c :: cs =>
      if c.isDigit then
        let n := Nat.ofDigitChars 10 ((c :: cs).takeWhile Char.isDigit) 0
        match (c :: cs).dropWhile Char.isDigit with
        | ':' :: rest => do
          let (field, rest) ← readTime n rest
          let fields ← readFields fuel rest
          some (field :: fields)
        | rest => do
          let rest := rest.dropWhile fun c => spaces.contains c
          let unit ← TimeUnit.ofName (rest.takeWhile Char.isAlpha)
          let fields ← readFields fuel (rest.dropWhile Char.isAlpha)
          some (.amount n unit :: fields)
      else none

/-- The parts of ISO-8601 text behind its `P`; `M` stands for minutes behind the `T`. -/
def readIso : ℕ → Bool → List Char → Option (List Field)
  | 0, _, _ => none
  | _ + 1, _, [] => some []
  | fuel + 1, false, 'T' :: cs => readIso fuel true cs
  | fuel + 1, time, cs =>
    let n := Nat.ofDigitChars 10 (cs.takeWhile Char.isDigit) 0
    let unit := match time, cs.dropWhile Char.isDigit with
      | false, 'W' :: rest => some (TimeUnit.week, rest)
      | false, 'D' :: rest => some (TimeUnit.day, rest)
      | true, 'H' :: rest => some (TimeUnit.hour, rest)
      | true, 'M' :: rest => some (TimeUnit.minute, rest)
      | true, 'S' :: rest => some (TimeUnit.second, rest)
      | _, _ => none
    unit.bind fun (unit, rest) => (readIso fuel time rest).map (.amount n unit :: ·)

/-- The sum of the parts; no unit may be named twice. -/
def ofFields (fields : List Field) : Option Interval :=
  if (fields.flatMap Field.units).Nodup ∧ fields.all Field.inRange then
    let days := (fields.map Field.days).sum
    let micros := (fields.map Field.micros).sum
    if h : days < 2 ^ 31 ∧ micros < 2 ^ 63 then some ⟨days, micros, h.1, h.2⟩ else none
  else none

/-- The cast of a text. -/
def castInterval (s : String) : Option Interval :=
  match s.toList with
  | 'P' :: c :: cs => (readIso (cs.length + 2) false (c :: cs)).bind ofFields
  | cs =>
    match readFields (cs.length + 1) cs with
    | some (f :: fs) => ofFields (f :: fs)
    | _ => none

/-! ## The accepted texts -/

/-- `\d` -/
def digit : RegularExpression Char := oneOf digits

/-- `\s` -/
def space : RegularExpression Char := oneOf spaces

/-- Unit text, in lower case. -/
def unitPattern : RegularExpression Char :=
  space.star * many1 (many1 digit * (space.star *
    (anyOf ((TimeUnit.all.flatMap TimeUnit.names).map word) * space.star)))

/-- ISO-8601 text. -/
def isoPattern : RegularExpression Char :=
  char 'P' * (maybe (many1 digit * char 'W') * (maybe (many1 digit * char 'D') *
    maybe (char 'T' * (maybe (many1 digit * char 'H') * (maybe (many1 digit * char 'M') *
      maybe (many1 digit * char 'S'))))))

/-- The days of what the database prints. -/
def dayPattern : RegularExpression Char :=
  many1 digit * (word [' ', 'd', 'a', 'y'] * maybe (char 's'))

/-- The time of what the database prints, with two digits for the hours. -/
def timePattern : RegularExpression Char :=
  digit * (digit * (char ':' * (digit * (digit * (char ':' * (digit * (digit *
    maybe (char '.' * many1 digit))))))))

/-- What the database prints. -/
def printedPattern : RegularExpression Char := maybe dayPattern * (space.star * maybe timePattern)

/-- The texts that the validator accepts for a window. -/
def windowForm (s : String) : Bool :=
  unitPattern.rmatch (s.toList.map Char.toLower) || isoPattern.rmatch s.toList ||
    printedPattern.rmatch s.toList

/-! ## Reading what has been printed -/

section Reading

variable {ds : List Char} (rest : List Char) {fuel : ℕ}

/-- Digits up to something else. -/
theorem span_digits (hds : ∀ c ∈ ds, c.isDigit = true) (hrest : ∀ c ∈ rest.head?, c.isDigit = false) :
    (ds ++ rest).takeWhile Char.isDigit = ds ∧ (ds ++ rest).dropWhile Char.isDigit = rest := by
  rw [List.takeWhile_append_of_pos hds, List.dropWhile_append_of_pos hds]
  cases rest with
  | nil => exact ⟨List.append_nil ds, rfl⟩
  | cons c cs =>
    have hc : c.isDigit = false := hrest c rfl
    exact ⟨by simp [hc], by simp [hc]⟩

theorem not_isDigit_of_mem_spaces {c : Char} (h : c ∈ spaces) : c.isDigit = false := by
  simp only [spaces, List.mem_cons, List.not_mem_nil, or_false] at h
  rcases h with rfl | rfl | rfl | rfl | rfl | rfl <;> decide

/-- Text that begins with a digit begins with no space. -/
theorem dropWhile_spaces (hne : ds ≠ []) (hds : ∀ c ∈ ds, c.isDigit = true) :
    ∃ c cs, (ds ++ rest).dropWhile (fun c => spaces.contains c) = c :: cs ∧ c :: cs = ds ++ rest ∧
      c.isDigit = true := by
  cases ds with
  | nil => exact absurd rfl hne
  | cons c cs =>
    have hc := hds c (.head _)
    have hspace : spaces.contains c = false := by
      by_contra hin
      rw [not_isDigit_of_mem_spaces (by simpa using hin)] at hc
      cases hc
    exact ⟨c, cs ++ rest, by rw [List.cons_append, List.dropWhile_cons, hspace, if_neg (by decide)],
      rfl, hc⟩

/-- A time is read behind its hours. -/
theorem readFields_time (hne : ds ≠ []) (hds : ∀ c ∈ ds, c.isDigit = true) :
    readFields (fuel + 1) (ds ++ ':' :: rest) =
      (readTime (Nat.ofDigitChars 10 ds 0) rest).bind fun p =>
        (readFields fuel p.2).map fun fields => p.1 :: fields := by
  obtain ⟨c, cs, hdrop, heq, hc⟩ := dropWhile_spaces (':' :: rest) hne hds
  obtain ⟨htake, hskip⟩ := span_digits (':' :: rest) hds (by simp)
  rw [readFields, hdrop]
  simp only [hc, if_true]
  rw [heq, htake, hskip]
  simp only [Option.bind_eq_bind, Option.map_eq_bind]
  rfl

/-- An amount is read before the name of its unit. -/
theorem readFields_amount {name : List Char} (hne : ds ≠ []) (hds : ∀ c ∈ ds, c.isDigit = true)
    (hname : ∀ c ∈ name, c.isAlpha = true) (hnn : name ≠ []) (hspace : ∀ c ∈ name, c ∉ spaces)
    (hrest : ∀ c ∈ rest.head?, c.isAlpha = false) :
    readFields (fuel + 1) (ds ++ ' ' :: (name ++ rest)) =
      (TimeUnit.ofName name).bind fun u =>
        (readFields fuel rest).map fun fields => .amount (Nat.ofDigitChars 10 ds 0) u :: fields := by
  obtain ⟨c, cs, hdrop, heq, hc⟩ := dropWhile_spaces (' ' :: (name ++ rest)) hne hds
  obtain ⟨htake, hskip⟩ := span_digits (' ' :: (name ++ rest)) hds (by simp)
  have hsp : (' ' :: (name ++ rest)).dropWhile (fun c => spaces.contains c) = name ++ rest := by
    cases name with
    | nil => exact absurd rfl hnn
    | cons a name =>
      have ha : spaces.contains a = false := by simpa using hspace a (.head _)
      rw [List.dropWhile_cons, if_pos (by decide), List.cons_append, List.dropWhile_cons, ha]
      rfl
  have htakeName : (name ++ rest).takeWhile Char.isAlpha = name := by
    rw [List.takeWhile_append_of_pos hname]
    cases rest with
    | nil => exact List.append_nil name
    | cons a rest =>
      have ha : a.isAlpha = false := hrest a rfl
      simp [ha]
  have hdropName : (name ++ rest).dropWhile Char.isAlpha = rest := by
    rw [List.dropWhile_append_of_pos hname]
    cases rest with
    | nil => rfl
    | cons a rest =>
      have ha : a.isAlpha = false := hrest a rfl
      simp [ha]
  rw [readFields, hdrop]
  simp only [hc, if_true]
  rw [heq, htake, hskip]
  show ((TimeUnit.ofName (((' ' :: (name ++ rest)).dropWhile _).takeWhile _)).bind fun u =>
    (readFields fuel (((' ' :: (name ++ rest)).dropWhile _).dropWhile _)).bind fun fields =>
      some (Field.amount (Nat.ofDigitChars 10 ds 0) u :: fields)) = _
  rw [hsp, htakeName, hdropName]
  simp only [Option.map_eq_bind]
  rfl

end Reading

namespace Interval

variable (iv : Interval)

/-- The time of an interval as a part. -/
def timeField : Field :=
  .time iv.hours iv.minutes iv.seconds (iv.fractionText.drop 1)

theorem minutes_lt : iv.minutes < 60 := Nat.mod_lt _ (by decide)

theorem seconds_lt : iv.seconds < 60 := Nat.mod_lt _ (by decide)

theorem fraction_lt : iv.fraction < 1000000 := Nat.mod_lt _ (by decide)

theorem fractionMicros_fractionText : fractionMicros (iv.fractionText.drop 1) = iv.fraction := by
  unfold fractionText
  split
  · rename_i h
    rw [h]
    rfl
  · have hlen : (padded 6 iv.fraction).length = 6 := length_padded (by decide) iv.fraction_lt
    have hle : (trimZeros (padded 6 iv.fraction)).length ≤ 6 :=
      (List.rdropWhile_prefix _ _).length_le.trans_eq hlen
    have hpad := rightpad_trimZeros (padded 6 iv.fraction)
    rw [hlen] at hpad
    show fractionMicros (trimZeros (padded 6 iv.fraction)) = _
    rw [fractionMicros, if_pos hle, hpad, ofDigitChars_padded]

/-- The time of an interval is its microseconds. -/
theorem micros_timeField : iv.timeField.micros = iv.micros := by
  show iv.hours * 3600000000 + iv.minutes * 60000000 + iv.seconds * 1000000 +
    fractionMicros (iv.fractionText.drop 1) = iv.micros
  rw [fractionMicros_fractionText, hours, minutes, seconds, fraction]
  omega

/-- The time is read. -/
theorem readFields_timeText (fuel : ℕ) : readFields (fuel + 2) iv.timeText = some [iv.timeField] := by
  have hdigit : ∀ {n : ℕ}, ∀ c ∈ padded 2 n, c.isDigit = true := fun c hc => isDigit_of_mem_padded hc
  have hne : ∀ {n : ℕ}, padded 2 n ≠ [] := fun {n} h =>
    Nat.toDigits_ne_nil (List.append_eq_nil_iff.mp h).2
  rw [timeText, readFields_time _ hne hdigit, ofDigitChars_padded]
  have hminute := span_digits (':' :: (padded 2 iv.seconds ++ iv.fractionText))
    (@hdigit iv.minutes) (by simp)
  have hsecond := span_digits iv.fractionText (@hdigit iv.seconds) (by
    unfold fractionText
    split <;> simp)
  have hread : readTime iv.hours (padded 2 iv.minutes ++ ':' :: (padded 2 iv.seconds ++ iv.fractionText)) =
      some (iv.timeField, []) := by
    rw [readTime, hminute.2]
    simp only [hminute.1, hsecond.1, hsecond.2, ofDigitChars_padded, timeField]
    -- behind the seconds there is nothing, or a point with digits up to the end
    unfold fractionText
    by_cases hf : iv.fraction = 0
    · rw [if_pos hf]
      rfl
    · have hds : ∀ c ∈ trimZeros (padded 6 iv.fraction), c.isDigit = true := fun c hc =>
        isDigit_of_mem_padded ((List.rdropWhile_prefix _ _).subset hc)
      obtain ⟨htake, hskip⟩ := span_digits [] hds nofun
      rw [List.append_nil] at htake hskip
      rw [if_neg hf]
      show some (Field.time _ _ _ ((trimZeros _).takeWhile _), (trimZeros _).dropWhile _) = _
      rw [htake, hskip]
      rfl
  rw [hread]
  rfl

/-- The name of the unit in the days. -/
def dayName : List Char := if iv.days = 1 then ['d', 'a', 'y'] else ['d', 'a', 'y', 's']

theorem dayText_eq : iv.dayText = Nat.toDigits 10 iv.days ++ ' ' :: iv.dayName := by
  unfold dayText dayName
  split <;> rfl

theorem ofName_dayName : TimeUnit.ofName iv.dayName = some .day := by
  unfold dayName
  split <;> decide

/-- Days are read before what is behind them. -/
theorem readFields_dayText (fuel : ℕ) (rest : List Char) (hrest : ∀ c ∈ rest.head?, c.isAlpha = false) :
    readFields (fuel + 1) (iv.dayText ++ rest) =
      (readFields fuel rest).map fun fields => .amount iv.days .day :: fields := by
  have hname : ∀ c ∈ iv.dayName, c.isAlpha = true ∧ c ∉ spaces := by
    unfold dayName
    split <;> simp [spaces]
  have hnn : iv.dayName ≠ [] := by
    unfold dayName
    split <;> nofun
  rw [dayText_eq, List.append_assoc, List.cons_append,
    readFields_amount rest Nat.toDigits_ne_nil (fun c hc => isDigit_of_mem_toDigits hc)
      (fun c hc => (hname c hc).1) hnn (fun c hc => (hname c hc).2) hrest,
    ofName_dayName, Nat.ofDigitChars_ten_toDigits]
  rfl

/-- The parts of an interval. -/
def fields : List Field :=
  if iv.days = 0 then [iv.timeField]
  else if iv.micros = 0 then [.amount iv.days .day]
  else [.amount iv.days .day, iv.timeField]

theorem readFields_chars (fuel : ℕ) : readFields (fuel + 3) iv.chars = some iv.fields := by
  unfold chars fields
  split_ifs with hd hm
  · exact iv.readFields_timeText (fuel + 1)
  · have h := iv.readFields_dayText (fuel + 2) [] nofun
    rw [List.append_nil] at h
    rw [h]
    rfl
  · have htime : readFields (fuel + 2) (' ' :: iv.timeText) = some [iv.timeField] := by
      rw [← iv.readFields_timeText fuel, readFields, readFields]
      rfl
    rw [iv.readFields_dayText (fuel + 2) (' ' :: iv.timeText) (by simp), htime]
    rfl

theorem ofFields_eq_some {fs : List Field} (hunits : (fs.flatMap Field.units).Nodup)
    (hrange : fs.all Field.inRange = true) (hdays : (fs.map Field.days).sum = iv.days)
    (hmicros : (fs.map Field.micros).sum = iv.micros) : ofFields fs = some iv := by
  rw [ofFields, if_pos ⟨hunits, hrange⟩]
  simp only [hdays, hmicros]
  rw [dif_pos ⟨iv.days_lt, iv.micros_lt⟩]

/-- The parts of an interval add up to it. -/
theorem ofFields_fields : ofFields iv.fields = some iv := by
  have htime : iv.timeField.inRange = true := by
    have hm := iv.minutes_lt
    have hs := iv.seconds_lt
    simp only [timeField, Field.inRange, Bool.and_eq_true, decide_eq_true_eq]
    omega
  have hunits : iv.timeField.units = [.hour, .minute, .second] := rfl
  have hdays : iv.timeField.days = 0 := rfl
  unfold fields
  split_ifs with hd hm
  · apply ofFields_eq_some
    · simp only [List.flatMap_cons, List.flatMap_nil, hunits]
      decide
    · simp only [List.all_cons, List.all_nil, htime, Bool.and_self]
    · simp only [List.map_cons, List.map_nil, List.sum_cons, List.sum_nil, hdays, hd,
        Nat.add_zero]
    · simp only [List.map_cons, List.map_nil, List.sum_cons, List.sum_nil, iv.micros_timeField,
        Nat.add_zero]
  · apply ofFields_eq_some
    · simp only [List.flatMap_cons, List.flatMap_nil, Field.units_day]
      decide
    · simp only [List.all_cons, List.all_nil, Field.inRange_day, Bool.and_self]
    · simp only [List.map_cons, List.map_nil, List.sum_cons, List.sum_nil, Field.days_day, Nat.add_zero]
    · simp only [List.map_cons, List.map_nil, List.sum_cons, List.sum_nil, Field.micros_day, hm,
        Nat.add_zero]
  · apply ofFields_eq_some
    · simp only [List.flatMap_cons, List.flatMap_nil, Field.units_day, hunits]
      decide
    · simp only [List.all_cons, List.all_nil, Field.inRange_day, htime, Bool.and_self]
    · simp only [List.map_cons, List.map_nil, List.sum_cons, List.sum_nil, Field.days_day, hdays,
        Nat.add_zero]
    · simp only [List.map_cons, List.map_nil, List.sum_cons, List.sum_nil, Field.micros_day,
        iv.micros_timeField, Nat.zero_add, Nat.add_zero]

theorem padded_ne_nil (width n : ℕ) : padded width n ≠ [] := fun h =>
  Nat.toDigits_ne_nil (List.append_eq_nil_iff.mp h).2

/-- What is printed begins with a digit. -/
theorem exists_chars_eq : ∃ c cs, iv.chars = c :: cs ∧ c.isDigit = true := by
  have htime : ∃ c cs, iv.timeText = c :: cs ∧ c.isDigit = true := by
    obtain ⟨c, cs, h⟩ := List.exists_cons_of_ne_nil (padded_ne_nil 2 iv.hours)
    have hc := isDigit_of_mem_padded (h ▸ List.mem_cons_self : c ∈ padded 2 iv.hours)
    exact ⟨c, _, by rw [timeText, h, List.cons_append], hc⟩
  obtain ⟨c, cs, h⟩ := List.exists_cons_of_ne_nil (@Nat.toDigits_ne_nil iv.days 10)
  have hc := isDigit_of_mem_toDigits (h ▸ List.mem_cons_self : c ∈ Nat.toDigits 10 iv.days)
  unfold chars
  split_ifs
  · exact htime
  · exact ⟨c, _, by rw [dayText, h, List.cons_append], hc⟩
  · exact ⟨c, _, by rw [dayText, h, List.cons_append, List.cons_append], hc⟩

theorem two_le_length_chars : 2 ≤ iv.chars.length := by
  have hp := List.length_pos_iff.mpr (padded_ne_nil 2 iv.hours)
  have hd := List.length_pos_iff.mpr (@Nat.toDigits_ne_nil iv.days 10)
  unfold chars
  rw [timeText, dayText_eq]
  split_ifs <;> simp only [List.length_append, List.length_cons] <;> omega

end Interval

/-- **The cast of what is printed for an interval is the interval.** -/
theorem castInterval_text (iv : Interval) : castInterval iv.text = some iv := by
  have hlist : iv.text.toList = iv.chars := String.toList_ofList
  obtain ⟨c, cs, hchars, hc⟩ := iv.exists_chars_eq
  have hread : readFields (iv.chars.length + 1) iv.chars = some iv.fields := by
    obtain ⟨fuel, hfuel⟩ : ∃ fuel, iv.chars.length + 1 = fuel + 3 :=
      ⟨iv.chars.length - 2, by have := iv.two_le_length_chars; omega⟩
    rw [hfuel, iv.readFields_chars]
  obtain ⟨f, fs, hfields⟩ : ∃ f fs, iv.fields = f :: fs := by
    unfold Interval.fields
    split_ifs <;> exact ⟨_, _, rfl⟩
  rw [castInterval, hlist]
  split
  · -- it does not begin with a letter
    rename_i heq
    rw [hchars] at heq
    obtain ⟨rfl, -⟩ := List.cons.inj heq
    cases hc
  · rw [hread, hfields]
    show ofFields (f :: fs) = some iv
    rw [← hfields, iv.ofFields_fields]

/-! ## Accepting what has been printed -/

section Accepting

variable {P : RegularExpression Char} {w : List Char}

theorem mem_digits {c : Char} (h : c.isDigit = true) : c ∈ digits := by
  have hn : 48 ≤ c.toNat ∧ c.toNat ≤ 57 := by
    simpa [Char.isDigit, UInt32.le_iff_toNat_le] using h
  rw [← Char.ofNat_toNat c]
  generalize c.toNat = n at hn
  obtain ⟨h₁, h₂⟩ := hn
  interval_cases n <;> decide

theorem matches_digit_mul {c : Char} (hc : c.isDigit = true) (hw : w ∈ P.matches') :
    c :: w ∈ (digit * P).matches' :=
  matches_mul.mpr ⟨[c], matches_oneOf.mpr ⟨c, mem_digits hc, rfl⟩, w, hw, rfl⟩

theorem matches_char_mul (c : Char) (hw : w ∈ P.matches') : c :: w ∈ (char c * P).matches' :=
  matches_mul.mpr ⟨[c], rfl, w, hw, rfl⟩

/-- A number below 100 has two digits. -/
theorem matches_two_mul {n : ℕ} (hn : n < 100) (hw : w ∈ P.matches') :
    padded 2 n ++ w ∈ (digit * (digit * P)).matches' := by
  obtain ⟨a, b, h⟩ := List.length_eq_two.mp (length_padded (by decide) hn : (padded 2 n).length = 2)
  have hdigit : ∀ c ∈ padded 2 n, c.isDigit = true := fun c hc => isDigit_of_mem_padded hc
  rw [h] at hdigit ⊢
  exact matches_digit_mul (hdigit a (by simp)) (matches_digit_mul (hdigit b (by simp)) hw)

theorem matches_many1_digit (hne : w ≠ []) (h : ∀ c ∈ w, c.isDigit = true) :
    w ∈ (many1 digit).matches' :=
  matches_many1_oneOf hne fun c hc => mem_digits (h c hc)

theorem exists_of_matches_time (h : w ∈ timePattern.matches') :
    ∃ x ∈ digits, ∃ y ∈ digits, ∃ rest, w = x :: y :: ':' :: rest := by
  obtain ⟨_, ha, _, h₁, rfl⟩ := matches_mul.mp h
  obtain ⟨x, hx, rfl⟩ := matches_oneOf.mp ha
  obtain ⟨_, hb, _, h₂, rfl⟩ := matches_mul.mp h₁
  obtain ⟨y, hy, rfl⟩ := matches_oneOf.mp hb
  obtain ⟨_, rfl, rest, -, rfl⟩ := matches_mul.mp h₂
  exact ⟨x, hx, y, hy, rest, rfl⟩

theorem getLast?_of_matches_day (h : w ∈ dayPattern.matches') :
    w.getLast? = some 'y' ∨ w.getLast? = some 's' := by
  obtain ⟨ds, -, _, h₁, rfl⟩ := matches_mul.mp h
  obtain ⟨_, hw, m, hm, rfl⟩ := matches_mul.mp h₁
  obtain rfl := matches_word.mp hw
  rcases matches_maybe.mp hm with rfl | rfl
  · exact .inl (by simp)
  · exact .inr (by simp)

namespace Interval

variable (iv : Interval)

theorem matches_fractionText : iv.fractionText ∈ (maybe (char '.' * many1 digit)).matches' := by
  unfold fractionText
  split
  · exact matches_maybe.mpr (.inl rfl)
  · rename_i hf
    refine matches_maybe.mpr (.inr (matches_char_mul '.' (matches_many1_digit (fun hnil => hf ?_)
      fun c hc => isDigit_of_mem_padded ((List.rdropWhile_prefix _ _).subset hc))))
    -- the digits of a number are not all zero
    have hpad := rightpad_trimZeros (padded 6 iv.fraction)
    rw [hnil, List.rightpad, List.nil_append] at hpad
    rw [← ofDigitChars_padded 6 iv.fraction, ← hpad, Nat.ofDigitChars_replicate_zero, Nat.mul_zero]

theorem matches_timeText (h : iv.hours < 100) : iv.timeText ∈ timePattern.matches' := by
  unfold timeText timePattern
  apply matches_two_mul h
  apply matches_char_mul
  apply matches_two_mul (iv.minutes_lt.trans (by decide))
  apply matches_char_mul
  apply matches_two_mul (iv.seconds_lt.trans (by decide))
  exact iv.matches_fractionText

theorem matches_dayText : iv.dayText ∈ dayPattern.matches' := by
  refine matches_mul.mpr ⟨_, matches_many1_digit Nat.toDigits_ne_nil fun c hc =>
    isDigit_of_mem_toDigits hc, _, ?_, rfl⟩
  split
  · exact matches_mul.mpr ⟨_, matches_word.mpr rfl, [], matches_maybe.mpr (.inl rfl), rfl⟩
  · exact matches_mul.mpr ⟨_, matches_word.mpr rfl, ['s'], matches_maybe.mpr (.inr rfl), rfl⟩

theorem hours_eq_zero (h : iv.micros = 0) : iv.hours = 0 := by
  rw [hours, h]

/-- What is printed is accepted when the time is below 100 hours. -/
theorem matches_chars (h : iv.hours < 100) : iv.chars ∈ printedPattern.matches' := by
  have hspaces : ∀ {w : List Char}, (∀ c ∈ w, c ∈ spaces) → w ∈ space.star.matches' :=
    fun hw => matches_star_oneOf hw
  unfold chars
  split_ifs
  · exact matches_mul.mpr ⟨[], matches_maybe.mpr (.inl rfl), _, matches_mul.mpr
      ⟨[], hspaces nofun, _, matches_maybe.mpr (.inr (iv.matches_timeText h)), rfl⟩, rfl⟩
  · exact matches_mul.mpr ⟨_, matches_maybe.mpr (.inr iv.matches_dayText), [], matches_mul.mpr
      ⟨[], hspaces nofun, [], matches_maybe.mpr (.inl rfl), rfl⟩, List.append_nil _⟩
  · exact matches_mul.mpr ⟨_, matches_maybe.mpr (.inr iv.matches_dayText), _, matches_mul.mpr
      ⟨[' '], hspaces (by simp [spaces]), _, matches_maybe.mpr (.inr (iv.matches_timeText h)), rfl⟩, rfl⟩

/-- What is printed has a colon behind the hours, and none before. -/
theorem exists_chars_time (h : 100 ≤ iv.hours) : ∃ pre rest,
    iv.chars = pre ++ padded 2 iv.hours ++ ':' :: rest ∧ ':' ∉ pre := by
  have hmicros : iv.micros ≠ 0 := fun h0 => by
    rw [iv.hours_eq_zero h0] at h
    cases h
  unfold chars timeText
  rw [if_neg hmicros]
  split_ifs
  · exact ⟨[], _, rfl, nofun⟩
  · refine ⟨iv.dayText ++ [' '], _, by rw [List.append_assoc, List.append_assoc]; rfl, fun hmem => ?_⟩
    rcases List.mem_append.mp hmem with hmem | hmem
    · rw [dayText] at hmem
      rcases List.mem_append.mp hmem with hmem | hmem
      · exact absurd (isDigit_of_mem_toDigits hmem) (by decide)
      · split at hmem <;> simp at hmem
    · simp at hmem

/-- A time with three digits or more for the hours has one before the last two. -/
theorem exists_padded_hours (h : 100 ≤ iv.hours) :
    ∃ hs d u v, padded 2 iv.hours = hs ++ [d] ++ [u, v] := by
  have hlen : 3 ≤ (padded 2 iv.hours).reverse.length := by
    by_contra hlt
    rw [List.length_reverse, padded, List.length_leftpad, Nat.not_le] at hlt
    have hle := (Nat.length_toDigits_le_iff (by decide : 1 < 10) (by decide : 0 < 2)).mp
      (by omega : (Nat.toDigits 10 iv.hours).length ≤ 2)
    omega
  rcases hrev : (padded 2 iv.hours).reverse with _ | ⟨v, _ | ⟨u, _ | ⟨d, r⟩⟩⟩
  · simp [hrev] at hlen
  · simp [hrev] at hlen
  · simp [hrev] at hlen
  · exact ⟨r.reverse, d, u, v, by rw [← List.reverse_reverse (padded 2 iv.hours), hrev]; simp⟩

/-- What is printed is not accepted as print when the time has three digits for the hours. -/
theorem not_matches_chars (h : 100 ≤ iv.hours) : iv.chars ∉ printedPattern.matches' := by
  intro hmatch
  obtain ⟨pre, rest, hchars, hpre⟩ := iv.exists_chars_time h
  obtain ⟨a, ha, _, hbt, heq⟩ := matches_mul.mp hmatch
  obtain ⟨b, hb, t, ht, rfl⟩ := matches_mul.mp hbt
  have hca : ':' ∉ a := fun hc => absurd (mem_alphabet ha _ hc) (by decide)
  have hcb : ':' ∉ b := fun hc => absurd (mem_alphabet hb _ hc) (by decide)
  have hdigit : ∀ c ∈ padded 2 iv.hours, c.isDigit = true := fun c hc => isDigit_of_mem_padded hc
  have hch : ':' ∉ padded 2 iv.hours := fun hc => absurd (hdigit _ hc) (by decide)
  rw [hchars] at heq
  rcases matches_maybe.mp ht with rfl | ht
  · have hmem : ':' ∈ a ++ (b ++ []) := heq ▸ by simp
    simp [hca, hcb] at hmem
  · obtain ⟨x, hx, y, hy, rest', rfl⟩ := exists_of_matches_time ht
    have hassoc : a ++ (b ++ x :: y :: ':' :: rest') = (a ++ b ++ [x, y]) ++ ':' :: rest' := by simp
    have hcxy : ':' ∉ a ++ b ++ [x, y] := by
      simp only [List.mem_append, List.mem_cons, List.not_mem_nil, or_false, not_or]
      exact ⟨⟨hca, hcb⟩, fun hc => absurd (hc ▸ hx) (by decide), fun hc => absurd (hc ▸ hy) (by decide)⟩
    have hcpre : ':' ∉ pre ++ padded 2 iv.hours := by simp [hpre, hch]
    have hbefore : ∀ {l r : List Char}, ':' ∉ l → (l ++ ':' :: r).takeWhile (· ≠ ':') = l :=
      fun {l r} hl => by
        rw [List.takeWhile_append_of_pos fun c hc => by
          simpa using fun h : c = ':' => hl (h ▸ hc)]
        simp
    rw [hassoc] at heq
    have heq := congrArg (List.takeWhile (· ≠ ':')) heq
    rw [hbefore hcxy, hbefore hcpre] at heq
    -- days and space would end with the first digit of the hours
    obtain ⟨hs, d, u, v, hpad⟩ := iv.exists_padded_hours h
    rw [hpad] at heq hdigit
    rw [← List.append_assoc, ← List.append_assoc] at heq
    have hab := (List.append_inj' heq rfl).1
    have hd : d.isDigit = true := hdigit d (by simp)
    have hlast : (a ++ b).getLast? = some d := by rw [hab]; simp
    rcases List.eq_nil_or_concat b with rfl | ⟨b, s, rfl⟩
    · rw [List.append_nil] at hlast
      rcases matches_maybe.mp ha with rfl | ha
      · cases hlast
      · rcases getLast?_of_matches_day ha with h' | h' <;> rw [h'] at hlast <;>
          obtain rfl := Option.some.inj hlast <;> cases hd
    · have hs : s ∈ spaces := mem_alphabet hb s (by simp)
      obtain rfl : s = d := by simpa using hlast
      rw [not_isDigit_of_mem_spaces hs] at hd
      cases hd

end Interval

end Accepting

/-- **The validator accepts what is printed when the time is below 100 hours.** -/
theorem windowForm_text_iff (iv : Interval) : windowForm iv.text = true ↔ iv.hours < 100 := by
  have hlist : iv.text.toList = iv.chars := String.toList_ofList
  rw [windowForm, hlist, Bool.or_eq_true, Bool.or_eq_true, rmatch_iff_matches', rmatch_iff_matches',
    rmatch_iff_matches']
  constructor
  · intro h
    by_contra hnot
    have hge := Nat.le_of_not_lt hnot
    obtain ⟨pre, rest, hchars, -⟩ := iv.exists_chars_time hge
    have hcolon : ':' ∈ iv.chars := by rw [hchars]; simp
    rcases h with (h | h) | h
    · have hmem : ':' ∈ iv.chars.map Char.toLower := List.mem_map.mpr ⟨':', hcolon, rfl⟩
      exact absurd (mem_alphabet h _ hmem) (by decide)
    · exact absurd (mem_alphabet h _ hcolon) (by decide)
    · exact iv.not_matches_chars hge h
  · exact fun h => .inr (iv.matches_chars h)

end PgAuthz.Gates
