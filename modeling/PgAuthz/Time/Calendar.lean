import Mathlib

/-!
# Calendar units and time zones

Instants are microseconds since the start of 1970 in UTC, local times microseconds since the start of 1970 on
the clock of a zone. A local time is truncated to the start of its hour, day, ISO week, month or year of the
proleptic Gregorian calendar. A zone says by how much its clock is ahead at an instant, and which offset is
taken for a local time, which the clock may show twice or never.

## Main definitions

* `CalendarUnit`, `trunc`: the units, and the start of the unit of a local time
* `CalendarUnit.span`: how long a unit lasts at most on the clock
* `Zone`, `Zone.toLocal`, `Zone.toInstant`: time zones and their conversions
* `Zone.unitStart`, `Zone.setBack`: the start of a unit as an instant, and by how much the clock was set back
  since then

## Main results

* `trunc_le`, `lt_trunc_add_span`: a local time lies in its unit
* `Zone.sub_unitStart`: the time since the start of a unit is what the clock has moved on and was set back
-/

namespace Calendar

/-! ## Days -/

/-- The microseconds of an hour. -/
def hour : ℤ := 3600000000

/-- The microseconds of a day. -/
def day : ℤ := 24 * hour

/-- The days from the first day of year 1 to the first day of a year. -/
def daysBefore (y : ℤ) : ℤ := 365 * (y - 1) + (y - 1) / 4 - (y - 1) / 100 + (y - 1) / 400

/-- The year has a 29th of February. -/
def isLeap (y : ℤ) : Bool := y % 4 = 0 && (y % 100 ≠ 0 || y % 400 = 0)

theorem daysBefore_succ (y : ℤ) : daysBefore (y + 1) = daysBefore y + if isLeap y then 366 else 365 := by
  unfold daysBefore isLeap
  by_cases h4 : y % 4 = 0 <;> by_cases h100 : y % 100 = 0 <;> by_cases h400 : y % 400 = 0 <;>
    simp [h4, h100, h400] <;> omega

theorem daysBefore_succ_le (y : ℤ) : daysBefore (y + 1) ≤ daysBefore y + 366 := by
  rw [daysBefore_succ]
  split <;> omega

/-- The year of a day, counted from the first day of year 1. -/
def yearOf (n : ℤ) : ℤ :=
  let y := 400 * n / 146097 + 1
  if n < daysBefore y then y - 1 else if daysBefore (y + 1) ≤ n then y + 1 else y

theorem yearOf_spec (n : ℤ) : daysBefore (yearOf n) ≤ n ∧ n < daysBefore (yearOf n + 1) := by
  unfold yearOf daysBefore
  dsimp only
  split
  · omega
  · split <;> omega

/-- The lengths of the months of a year. -/
def monthLengths (y : ℤ) : List ℤ := [31, if isLeap y then 29 else 28, 31, 30, 31, 30, 31, 31, 30, 31, 30, 31]

/-- The first day of the month of a day, where the months with these lengths begin at `start`. -/
def monthStart (n : ℤ) : ℤ → List ℤ → ℤ
  | start, [] => start
  | start, m :: ms => if n < start + m then start else monthStart n (start + m) ms

theorem monthStart_spec {n start : ℤ} {ms : List ℤ} (hms : ∀ m ∈ ms, m ≤ 31) (hs : start ≤ n)
    (hn : n < start + ms.sum) : monthStart n start ms ≤ n ∧ n < monthStart n start ms + 31 := by
  induction ms generalizing start with
  | nil =>
    simp only [List.sum_nil] at hn
    omega
  | cons m ms ih =>
    rw [List.forall_mem_cons] at hms
    rw [List.sum_cons] at hn
    unfold monthStart
    split
    · have := hms.1
      omega
    · exact ih hms.2 (by omega) (by omega)

theorem sum_monthLengths (y : ℤ) : (monthLengths y).sum = if isLeap y then 366 else 365 := by
  unfold monthLengths
  split <;> simp

theorem monthLengths_le (y : ℤ) : ∀ m ∈ monthLengths y, m ≤ 31 := by
  unfold monthLengths
  split <;> simp

/-! ## Units -/

/-- The units of a calendar. -/
inductive CalendarUnit
  | hour
  | day
  | week
  | month
  | year
deriving DecidableEq, Repr

/-- The first day of year 1 is this many days before the first day of 1970. -/
def epoch : ℤ := 719162

/-- The start of the unit of a local time. The first day of 1970 was a Thursday. -/
def trunc : CalendarUnit → ℤ → ℤ
  | .hour, l => l / hour * hour
  | .day, l => l / day * day
  | .week, l => (l / day - (l / day + 3) % 7) * day
  | .month, l =>
    let n := l / day + epoch
    (monthStart n (daysBefore (yearOf n)) (monthLengths (yearOf n)) - epoch) * day
  | .year, l => (daysBefore (yearOf (l / day + epoch)) - epoch) * day

/-- How long a unit lasts at most. -/
def CalendarUnit.span : CalendarUnit → ℤ
  | .hour => Calendar.hour
  | .day => Calendar.day
  | .week => 7 * Calendar.day
  | .month => 31 * Calendar.day
  | .year => 366 * Calendar.day

/-- A day is in its month. -/
theorem month_spec (n : ℤ) :
    monthStart n (daysBefore (yearOf n)) (monthLengths (yearOf n)) ≤ n ∧
      n < monthStart n (daysBefore (yearOf n)) (monthLengths (yearOf n)) + 31 := by
  obtain ⟨hle, hlt⟩ := yearOf_spec n
  refine monthStart_spec (monthLengths_le _) hle ?_
  rwa [sum_monthLengths, ← daysBefore_succ]

theorem day_spec (l : ℤ) : l / day * day ≤ l ∧ l < l / day * day + day := by
  unfold day hour
  omega

/-- **A local time is not before the start of its unit.** -/
theorem trunc_le (u : CalendarUnit) (l : ℤ) : trunc u l ≤ l := by
  have hday := (day_spec l).1
  cases u with
  | hour =>
    simp only [trunc, hour]
    omega
  | day => exact hday
  | week =>
    simp only [trunc, day, hour] at hday ⊢
    omega
  | month =>
    have hmonth := (month_spec (l / day + epoch)).1
    simp only [trunc, day, hour] at hday hmonth ⊢
    omega
  | year =>
    have hyear := (yearOf_spec (l / day + epoch)).1
    simp only [trunc, day, hour] at hday hyear ⊢
    omega

/-- **No unit lasts longer than its span.** -/
theorem lt_trunc_add_span (u : CalendarUnit) (l : ℤ) : l < trunc u l + u.span := by
  have hday := (day_spec l).2
  cases u with
  | hour =>
    simp only [trunc, CalendarUnit.span, hour]
    omega
  | day => exact hday
  | week =>
    simp only [trunc, CalendarUnit.span, day, hour] at hday ⊢
    omega
  | month =>
    have hmonth := (month_spec (l / day + epoch)).2
    simp only [trunc, CalendarUnit.span, day, hour] at hday hmonth ⊢
    omega
  | year =>
    have hyear := Int.lt_of_lt_of_le (yearOf_spec (l / day + epoch)).2 (daysBefore_succ_le _)
    simp only [trunc, CalendarUnit.span, day, hour] at hday hyear ⊢
    omega

/-! ## Time zones -/

/-- By how much the clock of a zone is ahead at an instant, and the offset that is taken for a local time. -/
structure Zone where
  offset : ℤ → ℤ
  localOffset : ℤ → ℤ

namespace Zone

variable (z : Zone)

/-- What the clock shows at an instant. -/
def toLocal (t : ℤ) : ℤ := t + z.offset t

/-- The instant of a local time. -/
def toInstant (l : ℤ) : ℤ := l - z.localOffset l

/-- The start of the unit of an instant. -/
def unitStart (u : CalendarUnit) (t : ℤ) : ℤ := z.toInstant (trunc u (z.toLocal t))

/-- The time that the clock has moved on in the unit of an instant. -/
def elapsed (u : CalendarUnit) (t : ℤ) : ℤ := z.toLocal t - trunc u (z.toLocal t)

/-- By how much the clock was set back since a local time. -/
def setBack (l t : ℤ) : ℤ := z.localOffset l - z.offset t

/-- **The time since the start of a unit is what the clock has moved on, and what it was set back.** -/
theorem sub_unitStart (u : CalendarUnit) (t : ℤ) :
    t - z.unitStart u t = z.elapsed u t + z.setBack (trunc u (z.toLocal t)) t := by
  unfold unitStart elapsed setBack toInstant
  generalize trunc u (z.toLocal t) = l
  unfold toLocal
  omega

theorem elapsed_nonneg (u : CalendarUnit) (t : ℤ) : 0 ≤ z.elapsed u t := by
  have := trunc_le u (z.toLocal t)
  unfold elapsed
  omega

theorem elapsed_lt_span (u : CalendarUnit) (t : ℤ) : z.elapsed u t < u.span := by
  have := lt_trunc_add_span u (z.toLocal t)
  unfold elapsed
  omega

/-- The instant as many days and microseconds before another. The days are counted on the clock. -/
def minus (t : ℤ) (days micros : ℕ) : ℤ :=
  (if days = 0 then t else z.toInstant (z.toLocal t - days * day)) - micros

/-- By how much the clock was set back in the days before an instant, if there are any. -/
def setBackDays (t : ℤ) (days : ℕ) : ℤ := if days = 0 then 0 else z.setBack (z.toLocal t - days * day) t

/-- **Going back by days and microseconds takes what the clock was set back longer.** -/
theorem sub_minus (t : ℤ) (days micros : ℕ) :
    t - z.minus t days micros = days * day + micros + z.setBackDays t days := by
  unfold minus setBackDays
  split
  next h =>
    subst h
    omega
  next =>
    have hlocal : z.toLocal t = t + z.offset t := rfl
    unfold setBack toInstant
    generalize hl : z.toLocal t - days * day = l
    omega

/-- A clock that is never set. -/
def fixed (offset : ℤ) : Zone := ⟨fun _ => offset, fun _ => offset⟩

@[simp] theorem setBackDays_fixed (offset t : ℤ) (days : ℕ) : (fixed offset).setBackDays t days = 0 := by
  simp [setBackDays, setBack, fixed]

end Zone

end Calendar
