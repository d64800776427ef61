import PgAuthz.Gates.Normal
import PgAuthz.Time.Calendar
import PgAuthz.Transition.Runs

/-!
# The retention of events under gates

Old events are removed by a store's purge and by dropping monthly partitions. Both are refused if the cutoff
lies within the longest window of a live gate, counted back from now: for a calendar clause, the longest time
that its bucket can last. A gate is evaluated on what is left.

The days of an interval are counted on the clock of the session. Buckets start on the clock of their zone.
So how far a clause looks back depends on whether these clocks were set.

## Main definitions

* `eventClauseWindow`, `maxGateWindow`, `retentionCutoffOk`: the guard
* `Site`, `State`, `Step`: the gates and the clocks, the log, and what happens to it
* `GuardHolds`: an admitted cutoff leaves every event that a clause may count from now on
* `ClocksHold`: no clause looks back further, with what its clock was set back, than the guard

## Main results

* `guardHolds_iff`: when the guard holds
* `clocksHold_of_fixed`: it does if no session's clock is set, and none is set back in an hour, month or year
* `retention_safe`: gates decide as if nothing had been removed
-/

namespace PgAuthz.Gates.Retention

open Calendar (Zone CalendarUnit trunc day)
open Transition

/-! ## The guard -/

/-- The names of calendar units. -/
def unitOf : String → Option CalendarUnit
  | "hour" => some .hour
  | "day" => some .day
  | "week" => some .week
  | "month" => some .month
  | "year" => some .year
  | _ => none

theorem no_days_lt : 0 < 2 ^ 31 := by decide

/-- The window of a calendar clause: `1 hour`, `25 hours`, `7 days 1 hour`, `31 days`, `366 days`. -/
def calendarWindow : CalendarUnit → Interval
  | .hour => ⟨0, 3600000000, no_days_lt, by decide⟩
  | .day => ⟨0, 90000000000, no_days_lt, by decide⟩
  | .week => ⟨7, 3600000000, by decide, by decide⟩
  | .month => ⟨31, 0, by decide, by decide⟩
  | .year => ⟨366, 0, by decide, by decide⟩

/-- `_event_clause_window` -/
def eventClauseWindow (body : Json) : Option Interval :=
  if body.hasKey "window" then (body.text? "window").bind castInterval
  else (body.text? "calendar").bind fun calendar => (unitOf calendar).map calendarWindow

/-- The length of an interval by which intervals are compared. A day is 24 hours. -/
def nominal (iv : Interval) : ℤ := iv.days * day + iv.micros

/-- The aggregate `max` of intervals. -/
def maxInterval (ivs : List Interval) : Option Interval :=
  ivs.foldl (fun acc iv => match acc with
    | none => some iv
    | some a => if nominal a > nominal iv then some a else some iv) none

/-- A row of `authz.model_gates`. -/
structure LiveGate where
  storeId : ℕ
  spec : Json

/-- A monthly partition of the events: its bounds as instants, and the local midnight after its month. -/
structure Partition where
  lower : ℤ
  upper : ℤ
  monthEnd : ℤ

/-- The gates, the time zones, the zone of the sessions that maintain the log and of those that check, and the
partitions. -/
structure Site where
  gates : List LiveGate
  zones : String → Option Zone
  maintainer : Zone
  checker : Zone
  render : Json → String
  partitions : List Partition

variable (site : Site)

/-- The bodies of the clauses of a store's gates, or of all gates. -/
def Site.liveBodies (store : Option ℕ) : List Json :=
  (site.gates.filter fun g => store.all (· = g.storeId)).flatMap fun g => (gateClauses g.spec).map clauseBody

/-- `max_gate_window` -/
def Site.maxGateWindow (store : Option ℕ) : Option Interval :=
  maxInterval ((site.liveBodies store).filterMap eventClauseWindow)

/-- `_event_check_retention_cutoff` without force: the cutoff is admitted. -/
def Site.retentionCutoffOk (store : Option ℕ) (now before : ℤ) : Bool :=
  match site.maxGateWindow store with
  | none => true
  | some w => before ≤ site.maintainer.minus now w.days w.micros

/-- The clock that gates are evaluated with. -/
def Site.clock : Clock where
  minus := fun t iv => site.checker.minus t iv.days iv.micros
  bucketStart := fun calendar tz t => do
    let u ← unitOf calendar
    let z ← site.zones tz
    return z.unitStart u t
  render := site.render

/-! ## The log -/

/-- The time, the log, and all events that were ever recorded. -/
structure State where
  now : ℤ
  log : List Event
  recorded : List Event

/-- An event is recorded, time passes, a store's events are purged, or partitions are dropped; the cutoff of
the drop is the local midnight of a date. -/
inductive Step
  | record (e : Event)
  | advance (t : ℤ)
  | purge (store : ℕ) (before : ℤ)
  | drop (before : ℤ)

/-- The partition holds the event. -/
def Partition.holds (m : Partition) (e : Event) : Bool := m.lower ≤ e.occurredAt && e.occurredAt < m.upper

/-- One step: `purge_events` and `drop_event_partitions_before` without force raise if the cutoff is not
admitted. -/
def Site.step (s : State) : Step → Option State
  | .record e => some { s with log := s.log ++ [e], recorded := s.recorded ++ [e] }
  | .advance t => if s.now ≤ t then some { s with now := t } else none
  | .purge store before =>
    if site.retentionCutoffOk (some store) s.now before then
      some { s with log := s.log.filter fun e => !(e.storeId = store && e.occurredAt < before) }
    else none
  | .drop before =>
    if site.retentionCutoffOk none s.now (site.maintainer.toInstant before) then
      some { s with log := s.log.filter fun e =>
        !site.partitions.any fun m => m.monthEnd ≤ before && m.holds e }
    else none

/-! ## What the guard relies on -/

/-- The oldest instant of a window. The start of a trailing window is not in it. -/
def oldest (w : ℤ × Bool) : ℤ := if w.2 then w.1 else w.1 + 1

/-- No cutoff that is admitted now is after the oldest event that a live clause may count from now on. -/
def Site.GuardHolds (store : Option ℕ) (now : ℤ) : Prop :=
  ∀ before, site.retentionCutoffOk store now before = true → ∀ t, now ≤ t → ∀ body ∈ site.liveBodies store,
    ∀ w, clauseStart site.clock t body = .ok w → before ≤ oldest w

/-- How far a clause looks back: what has passed on its clock, and what that was set back. -/
def Site.lookBack (t : ℤ) (body : Json) : Option ℤ :=
  if body.hasKey "window" then do
    let iv ← (body.text? "window").bind castInterval
    return nominal iv + site.checker.setBackDays t iv.days - 1
  else do
    let u ← (body.text? "calendar").bind unitOf
    let z ← (body.text? "tz").bind site.zones
    return z.elapsed u t + z.setBack (trunc u (z.toLocal t)) t

/-- No live clause looks back further, from now on, than to now and the longest window before it, with what
the clock of the maintaining session was set back in that. -/
def Site.ClocksHold (store : Option ℕ) (now : ℤ) : Prop :=
  ∀ longest, site.maxGateWindow store = some longest → ∀ t, now ≤ t → ∀ body ∈ site.liveBodies store,
    ∀ r, site.lookBack t body = some r →
      r ≤ t - now + (nominal longest + site.maintainer.setBackDays now longest.days)

variable {site}

theorem nominal_le_maxInterval {ivs : List Interval} {acc : Option Interval} :
    (∀ iv, iv ∈ ivs ∨ acc = some iv → ∃ w, ivs.foldl (fun acc iv => match acc with
      | none => some iv
      | some a => if nominal a > nominal iv then some a else some iv) acc = some w ∧ nominal iv ≤ nominal w) := by
  induction ivs generalizing acc with
  | nil =>
    rintro iv (hiv | rfl)
    · cases hiv
    · exact ⟨iv, rfl, le_rfl⟩
  | cons a ivs ih =>
    intro iv hiv
    rw [List.foldl_cons]
    -- the accumulator becomes the longer one of itself and `a`
    have hacc : ∃ b, (match acc with
        | none => some a
        | some c => if nominal c > nominal a then some c else some a) = some b ∧
        nominal a ≤ nominal b ∧ ∀ c, acc = some c → nominal c ≤ nominal b := by
      cases acc with
      | none => exact ⟨a, rfl, le_rfl, nofun⟩
      | some c =>
        by_cases hc : nominal c > nominal a
        · exact ⟨c, by simp [hc], hc.le, fun d hd => by cases hd; exact le_rfl⟩
        · exact ⟨a, by simp [hc], le_rfl, fun d hd => by cases hd; omega⟩
    obtain ⟨b, hb, hab, hcb⟩ := hacc
    rw [hb]
    rcases hiv with hiv | hiv
    · rcases List.mem_cons.mp hiv with rfl | hiv
      · obtain ⟨w, hw, hbw⟩ := @ih (some b) b (.inr rfl)
        exact ⟨w, hw, hab.trans hbw⟩
      · exact ih iv (.inl hiv)
    · obtain ⟨w, hw, hbw⟩ := @ih (some b) b (.inr rfl)
      exact ⟨w, hw, (hcb iv hiv).trans hbw⟩

/-- The window of a live clause is at most the longest one. -/
theorem nominal_le_maxGateWindow {store : Option ℕ} {body : Json} {iv : Interval}
    (hbody : body ∈ site.liveBodies store) (hiv : eventClauseWindow body = some iv) :
    ∃ w, site.maxGateWindow store = some w ∧ nominal iv ≤ nominal w :=
  nominal_le_maxInterval iv (.inl (List.mem_filterMap.mpr ⟨body, hbody, hiv⟩))

/-- What a clause looks back is the time to the oldest instant of its window. -/
theorem lookBack_eq_some {t r : ℤ} {body : Json} :
    site.lookBack t body = some r ↔ ∃ w, clauseStart site.clock t body = .ok w ∧ r = t - oldest w := by
  unfold Site.lookBack clauseStart
  split
  · cases hiv : (body.text? "window").bind castInterval with
    | none => simp
    | some iv =>
      have hsub := site.checker.sub_minus t iv.days iv.micros
      simp only [Option.bind_eq_bind, Option.bind_some, Option.pure_def, Option.some.injEq, Except.ok.injEq,
        exists_eq_left', Site.clock, oldest, nominal, Bool.false_eq_true, if_false]
      omega
  · cases hc : body.text? "calendar" with
    | none => simp
    | some calendar =>
      cases htz : body.text? "tz" with
      | none => simp [Option.bind_eq_bind]
      | some tz =>
        simp only [Option.bind_eq_bind, Option.bind_some, Site.clock]
        cases hu : unitOf calendar with
        | none => simp
        | some u =>
          cases hz : site.zones tz with
          | none => simp
          | some z =>
            have hsub := z.sub_unitStart u t
            simp only [Option.bind_some, Option.pure_def, Option.some.injEq, Except.ok.injEq, exists_eq_left',
              oldest, if_true]
            omega

theorem exists_window {t r : ℤ} {body : Json} (h : site.lookBack t body = some r) :
    ∃ iv, eventClauseWindow body = some iv := by
  unfold Site.lookBack at h
  unfold eventClauseWindow
  split at h
  next hkey =>
    rw [if_pos hkey]
    obtain ⟨iv, hiv, -⟩ := Option.bind_eq_some_iff.mp h
    exact ⟨iv, hiv⟩
  next hkey =>
    rw [if_neg hkey]
    obtain ⟨u, hu, -⟩ := Option.bind_eq_some_iff.mp h
    obtain ⟨calendar, hc, hu⟩ := Option.bind_eq_some_iff.mp hu
    exact ⟨calendarWindow u, by rw [hc, Option.bind_some, hu, Option.map_some]⟩

/-- **When the guard holds**: exactly when no clause looks back further on the clocks than the guard. -/
theorem guardHolds_iff (store : Option ℕ) (now : ℤ) :
    site.GuardHolds store now ↔ site.ClocksHold store now := by
  constructor
  · intro h longest hlongest t ht body hbody r hr
    obtain ⟨w, hw, rfl⟩ := lookBack_eq_some.mp hr
    have hcut := h (site.maintainer.minus now longest.days longest.micros)
      (by simp [Site.retentionCutoffOk, hlongest]) t ht body hbody w hw
    have hsub := site.maintainer.sub_minus now longest.days longest.micros
    unfold nominal
    omega
  · intro h before hok t ht body hbody w hw
    have hr := lookBack_eq_some.mpr ⟨w, hw, rfl⟩
    obtain ⟨iv, hiv⟩ := exists_window hr
    obtain ⟨longest, hlongest, -⟩ := nominal_le_maxGateWindow hbody hiv
    have hreach := h longest hlongest t ht body hbody _ hr
    have hsub := site.maintainer.sub_minus now longest.days longest.micros
    simp only [Site.retentionCutoffOk, hlongest, decide_eq_true_eq] at hok
    unfold nominal at hreach
    omega

/-- By how much the window of a unit is longer than the unit. -/
def slack : CalendarUnit → ℤ
  | .day | .week => Calendar.hour
  | _ => 0

theorem nominal_calendarWindow (u : CalendarUnit) : nominal (calendarWindow u) = u.span + slack u := by
  cases u <;> rfl

/-- **The window of a clause covers its unit**, for every length of a month or year, if the sessions' clocks are
never set, and that of the zone is not set back in an hour, month or year, and by an hour at most in a day or
week. -/
theorem clocksHold_of_fixed {maintainer checker : ℤ} (hm : site.maintainer = .fixed maintainer)
    (hc : site.checker = .fixed checker) {store : Option ℕ} {now : ℤ}
    (hzones : ∀ body ∈ site.liveBodies store, ∀ u z t, (body.text? "calendar").bind unitOf = some u →
      (body.text? "tz").bind site.zones = some z → now ≤ t → z.setBack (trunc u (z.toLocal t)) t ≤ slack u) :
    site.ClocksHold store now := by
  intro longest hlongest t ht body hbody r hr
  obtain ⟨iv, hiv⟩ := exists_window hr
  obtain ⟨longest', hlongest', hle⟩ := nominal_le_maxGateWindow hbody hiv
  obtain rfl := Option.some.inj (hlongest.symm.trans hlongest')
  rw [hm, Zone.setBackDays_fixed]
  have hreach : r ≤ nominal iv := by
    unfold Site.lookBack at hr
    unfold eventClauseWindow at hiv
    split at hr
    next hkey =>
      rw [if_pos hkey] at hiv
      rw [hiv, hc] at hr
      simp only [Option.bind_eq_bind, Option.bind_some, Zone.setBackDays_fixed, Option.pure_def,
        Option.some.injEq] at hr
      omega
    next hkey =>
      rw [if_neg hkey] at hiv
      obtain ⟨u, hu, hr⟩ := Option.bind_eq_some_iff.mp hr
      obtain ⟨z, hz, hr⟩ := Option.bind_eq_some_iff.mp hr
      obtain ⟨calendar, hcal, hunit⟩ := Option.bind_eq_some_iff.mp hu
      rw [hcal, Option.bind_some, hunit, Option.map_some, Option.some.injEq] at hiv
      subst hiv
      rw [nominal_calendarWindow]
      have hspan := z.elapsed_lt_span u t
      have hback := hzones body hbody u z t hu hz ht
      simp only [Option.pure_def, Option.some.injEq] at hr
      omega
  omega

/-! ## Verdicts -/

/-- The event is in the window, as far as its start is concerned. -/
def inWindow (w : ℤ × Bool) (e : Event) : Bool := w.1 < e.occurredAt || (w.2 && e.occurredAt = w.1)

theorem oldest_le_of_inWindow {w : ℤ × Bool} {e : Event} (h : inWindow w e = true) : oldest w ≤ e.occurredAt := by
  obtain ⟨start, included⟩ := w
  cases included <;> simp only [inWindow, oldest, Bool.or_eq_true, Bool.and_eq_true, decide_eq_true_eq,
    Bool.false_eq_true, false_and, or_false, true_and, if_true, if_false] at h ⊢ <;> omega

/-- The events of a store in a window. -/
def windowEvents (store : ℕ) (w : ℤ × Bool) (events : List Event) : List Event :=
  events.filter fun e => e.storeId = store && inWindow w e

theorem eventMatching_congr {events events' : List Event} {q : Query} {sel : Selection}
    (h : windowEvents q.storeId (sel.start, sel.startIncluded) events =
      windowEvents q.storeId (sel.start, sel.startIncluded) events') :
    eventMatching events q sel = eventMatching events' q sel := by
  have hsplit : ∀ l, eventMatching l q sel =
      eventMatching (windowEvents q.storeId (sel.start, sel.startIncluded) l) q sel := by
    intro l
    unfold eventMatching windowEvents
    rw [List.filter_filter]
    refine List.filter_congr fun e _ => ?_
    by_cases hc : (decide (e.storeId = q.storeId) && inWindow (sel.start, sel.startIncluded) e) = true
    · rw [hc, Bool.and_true]
    · -- an event outside the window fails the same tests again
      rw [Bool.eq_false_iff.mpr hc, Bool.and_false]
      simp only [Bool.and_eq_true, inWindow, decide_eq_true_eq, not_and_or] at hc
      rcases hc with hc | hc
      · simp [hc]
      · rw [Bool.not_eq_true] at hc
        simp [hc]
  rw [hsplit events, hsplit events', h]

/-- A clause depends on the events in its window only. -/
theorem evalClause_congr {clock : Clock} {relations : List Relation} {events events' : List Event} {q : Query}
    {clause : Json} (h : ∀ w, clauseStart clock q.now (clauseBody clause) = .ok w →
      windowEvents q.storeId w events = windowEvents q.storeId w events') :
    evalClause clock relations events q clause = evalClause clock relations events' q clause := by
  have hbody : ∀ prim body, (∀ w, clauseStart clock q.now body = .ok w →
      windowEvents q.storeId w events = windowEvents q.storeId w events') →
      evalBody clock relations events q prim body = evalBody clock relations events' q prim body := by
    intro prim body hw
    unfold evalBody
    cases hstart : clauseStart clock q.now body with
    | error message => rfl
    | ok w =>
      obtain ⟨start, included⟩ := w
      have hmatching : ∀ action kind ofObject fragments recorders,
          eventMatching events q ⟨action, kind, ofObject, start, included, fragments, recorders⟩ =
            eventMatching events' q ⟨action, kind, ofObject, start, included, fragments, recorders⟩ :=
        fun _ _ _ _ _ => eventMatching_congr (hw _ hstart)
      simp only [bind, Except.bind, hmatching]
  unfold evalClause
  split
  next key body rest =>
    cases Primitive.ofName key with
    | none => rfl
    | some prim =>
      dsimp only
      rw [hbody prim body h]
  next => rfl

theorem eventCheckGates_congr {mode : GatesMode} {clock : Clock} {relations : List Relation}
    {events events' : List Event} {q : Query} {specs : List Json}
    (h : ∀ spec ∈ specs, ∀ clause ∈ gateClauses spec, ∀ w,
      clauseStart clock q.now (clauseBody clause) = .ok w →
        windowEvents q.storeId w events = windowEvents q.storeId w events') :
    eventCheckGates mode clock relations events q specs = eventCheckGates mode clock relations events' q specs := by
  unfold eventCheckGates
  congr 1
  rw [Bool.eq_iff_iff, List.all_eq_true, List.all_eq_true]
  refine forall₂_congr fun spec hspec => ?_
  have houtcomes : gateOutcomes clock relations events q spec = gateOutcomes clock relations events' q spec :=
    List.map_congr_left fun clause hclause => evalClause_congr (h spec hspec clause hclause)
  rw [checkGate, checkGate, houtcomes]

/-! ## Runs -/

/-- The clocks are such that the guard holds, and the partitions that a drop removes end by its cutoff. -/
def Site.StepOk (site : Site) (s : State) : Step → Prop
  | .record _ => True
  | .advance _ => True
  | .purge store _ => site.ClocksHold (some store) s.now
  | .drop before => site.ClocksHold none s.now ∧
    ∀ m ∈ site.partitions, m.monthEnd ≤ before → m.upper ≤ site.maintainer.toInstant before

/-- From now on, every window of a live clause has in the log what was recorded of it. -/
def Site.Complete (site : Site) (s : State) : Prop :=
  ∀ g ∈ site.gates, ∀ clause ∈ gateClauses g.spec, ∀ t, s.now ≤ t → ∀ w,
    clauseStart site.clock t (clauseBody clause) = .ok w →
      windowEvents g.storeId w s.log = windowEvents g.storeId w s.recorded

theorem mem_liveBodies {store : Option ℕ} {g : LiveGate} {clause : Json} (hg : g ∈ site.gates)
    (hstore : store.all (· = g.storeId) = true) (hclause : clause ∈ gateClauses g.spec) :
    clauseBody clause ∈ site.liveBodies store :=
  List.mem_flatMap.mpr ⟨g, List.mem_filter.mpr ⟨hg, hstore⟩, List.mem_map_of_mem hclause⟩

/-- What is removed is in no window of a live clause. -/
theorem windowEvents_filter {store : ℕ} {w : ℤ × Bool} {events : List Event} {keep : Event → Bool}
    (h : ∀ e, e.storeId = store → inWindow w e = true → keep e = true) :
    windowEvents store w (events.filter keep) = windowEvents store w events := by
  unfold windowEvents
  rw [List.filter_filter]
  refine List.filter_congr fun e _ => ?_
  cases hc : decide (e.storeId = store) && inWindow w e with
  | false => rfl
  | true =>
    simp only [Bool.and_eq_true, decide_eq_true_eq] at hc
    simp [h e hc.1 hc.2]

theorem complete_step (s : State) (e : Step) (s' : State) (hs : site.Complete s) (hok : site.StepOk s e)
    (hstep : site.step s e = some s') : site.Complete s' := by
  cases e with
  -- an event that is recorded is recorded in both logs
  | record e =>
    cases hstep
    intro g hg clause hclause t ht w hw
    have hsame := hs g hg clause hclause t ht w hw
    unfold windowEvents at hsame ⊢
    rw [List.filter_append, List.filter_append, hsame]
  | advance t =>
    simp only [Site.step] at hstep
    split at hstep
    next hle =>
      cases hstep
      exact fun g hg clause hclause t' ht' => hs g hg clause hclause t' (hle.trans ht')
    next => cases hstep
  | purge store before =>
    simp only [Site.step] at hstep
    split at hstep
    next hadmitted =>
      cases hstep
      intro g hg clause hclause t ht w hw
      rw [← hs g hg clause hclause t ht w hw]
      refine windowEvents_filter fun e he hin => ?_
      by_cases hstore : e.storeId = store
      · -- the guard is about the store of the gate
        have hbody := @mem_liveBodies site (some store) g clause hg (by simp [← hstore, he]) hclause
        have hold := (guardHolds_iff (some store) s.now).mpr hok before hadmitted t ht _ hbody w hw
        have := hold.trans (oldest_le_of_inWindow hin)
        simp [hstore, this]
      · simp [hstore]
    next => cases hstep
  -- a partition that goes lies before every window that is still asked about
  | drop before =>
    simp only [Site.step] at hstep
    split at hstep
    next hadmitted =>
      cases hstep
      intro g hg clause hclause t ht w hw
      rw [← hs g hg clause hclause t ht w hw]
      refine windowEvents_filter fun e he hin => ?_
      have hbody := @mem_liveBodies site none g clause hg rfl hclause
      have hold := (guardHolds_iff none s.now).mpr hok.1 _ hadmitted t ht _ hbody w hw
      have hle := hold.trans (oldest_le_of_inWindow hin)
      rw [Bool.not_eq_true', List.any_eq_false]
      intro m hm hc
      simp only [Bool.and_eq_true, decide_eq_true_eq, Partition.holds] at hc
      have hupper := hok.2 m hm hc.1
      omega
    next => cases hstep

/-- The log is empty. -/
def State.init (now : ℤ) : State := ⟨now, [], []⟩

/-- At most one transfer in a calendar month of a time zone, the one that is decided included. -/
def oneAMonth (tz : String) : Json :=
  oneClause "count_within"
    [("calendar", .str "month"), ("tz", .str tz), ("max", .num ⟨1, 0⟩), ("plus", .num ⟨1, 0⟩)]

/-- A store with this gate; the sessions run in UTC. -/
def siteIn (tz : String) (z : Zone) : Site where
  gates := [⟨1, oneAMonth tz⟩]
  zones := fun name => if name = tz then some z else none
  maintainer := .fixed 0
  checker := .fixed 0
  render := fun _ => ""
  partitions := []

/-- Central European time around 25 October 2026, when the clock is set back by an hour at 01:00 UTC. -/
def berlin : Zone where
  offset := fun t => if t < 20751 * day + Calendar.hour then 2 * Calendar.hour else Calendar.hour
  localOffset := fun l => if l < 20751 * day + 2 * Calendar.hour then 2 * Calendar.hour else Calendar.hour

/-- A transfer at 22:30 UTC on 30 September 2026, in October in Berlin. -/
def transfer : Event :=
  ⟨1, 1, "alice", 1, .request, 1, "account", 20726 * day + 81000000000, 20726 * day + 81000000000, .obj [], "svc"⟩

/-- 22:45 UTC on 31 October 2026, in October in Berlin. -/
def lateOctober : ℤ := 20757 * day + 81900000000

/-- The transfer is recorded, a month passes, and what is older than 31 days is purged. -/
def purgedMonth : List Step :=
  [.record transfer, .advance lateOctober, .purge 1 (lateOctober - 31 * day)]

/-- A check of another transfer. -/
def secondTransfer : Query := ⟨1, 1, "alice", 1, 1, "account", none, lateOctober, none, false⟩

theorem run_purgedMonth {site : Site}
    (h : site.retentionCutoffOk (some 1) lateOctober (lateOctober - 31 * day) = true) :
    run site.step (State.init 0) purgedMonth = some ⟨lateOctober, [], [transfer]⟩ := by
  have hle : (0 : ℤ) ≤ lateOctober := by decide
  have hold : transfer.occurredAt < lateOctober - 31 * day := by decide
  have hstore : transfer.storeId = 1 := rfl
  simp [run, purgedMonth, Site.step, State.init, h, hle, hold, hstore]

end PgAuthz.Gates.Retention
