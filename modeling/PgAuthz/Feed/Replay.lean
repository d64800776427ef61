import PgAuthz.Feed.Paging

/-!
# Replaying a log

A log of events, each of which names the row it changes and has a position. A replay takes for each
row the event with the greatest position; the table holds the effect of the event that was recorded
last. The two agree where the events of each row are recorded in the order of their positions.

## Main definitions

* `lastOf ident i log`: the event of the row `i` that was recorded last
* `latest ident pos log`: for each row the event with the greatest position
* `Ordered ident pos log`: the events of each row are recorded in the order of their positions

## Main results

* `mem_latest_iff`: for an ordered log, the replay takes the event that was recorded last
-/

namespace Feed

variable {α ι κ : Type} [DecidableEq ι] [LinearOrder κ]

/-- The event of the row `i` that was recorded last. -/
def lastOf (ident : α → ι) (i : ι) (log : List α) : Option α :=
  (log.filter fun a => ident a = i).getLast?

/-- For each row the event with the greatest position: `DISTINCT ON (ident)` of the log by `pos`,
descending. -/
def latest (ident : α → ι) (pos : α → κ) (log : List α) : List α :=
  log.filter fun a => log.all fun b => decide (ident b = ident a → pos b ≤ pos a)

/-- The events of each row are recorded in the order of their positions. -/
def Ordered (ident : α → ι) (pos : α → κ) (log : List α) : Prop :=
  log.Pairwise fun a b => ident a = ident b → pos a < pos b

variable {ident : α → ι} {pos : α → κ} {log : List α}

theorem lastOf_eq_some {i : ι} {a : α} (h : lastOf ident i log = some a) :
    a ∈ log ∧ ident a = i := by
  simpa using List.mem_filter.mp (List.mem_of_getLast? h)

theorem lastOf_append (i : ι) (log log' : List α) :
    lastOf ident i (log ++ log') = (lastOf ident i log').or (lastOf ident i log) := by
  rw [lastOf, List.filter_append, List.getLast?_append]
  rfl

theorem lastOf_eq_none {i : ι} : lastOf ident i log = none ↔ ∀ a ∈ log, ident a ≠ i := by
  rw [lastOf, List.getLast?_eq_none_iff, List.filter_eq_nil_iff]
  simp

/-- **For an ordered log, the replay takes of each row the event that was recorded last.** -/
theorem mem_latest_iff (h : Ordered ident pos log) {a : α} :
    a ∈ latest ident pos log ↔ lastOf ident (ident a) log = some a := by
  -- the events of the row of `a`, in strict order
  have hsorted : (log.filter fun b => ident b = ident a).Pairwise fun b c => pos b < pos c := by
    refine (List.Pairwise.filter (fun b => decide (ident b = ident a)) h).imp_of_mem ?_
    intro b c hb hc hlt
    have hb' : ident b = ident a := by simpa using (List.mem_filter.mp hb).2
    have hc' : ident c = ident a := by simpa using (List.mem_filter.mp hc).2
    exact hlt (hb'.trans hc'.symm)
  constructor
  · intro ha
    obtain ⟨hmem, hmax⟩ := List.mem_filter.mp ha
    simp only [List.all_eq_true, decide_eq_true_eq] at hmax
    have hrow : a ∈ log.filter fun b => ident b = ident a := List.mem_filter.mpr ⟨hmem, by simp⟩
    obtain ⟨last, hlast⟩ := Option.isSome_iff_exists.mp
      (List.getLast?_isSome.mpr (List.ne_nil_of_mem hrow))
    -- an event after `a` would have a greater position
    obtain ⟨front, hfront⟩ := List.getLast?_eq_some_iff.mp hlast
    rw [hfront] at hsorted hrow
    rcases List.mem_append.mp hrow with hmem' | hmem'
    · have hlt := (List.pairwise_append.mp hsorted).2.2 a hmem' last (by simp)
      have hlast' := lastOf_eq_some hlast
      exact absurd (hmax last hlast'.1 hlast'.2) (not_le.mpr hlt)
    · rw [List.mem_singleton.mp hmem'] at hlast ⊢
      exact hlast
  · intro hlast
    refine List.mem_filter.mpr ⟨(lastOf_eq_some hlast).1, ?_⟩
    simp only [List.all_eq_true, decide_eq_true_eq]
    intro b hb heq
    exact le_getLast hsorted (List.mem_filter.mpr ⟨hb, by simpa using heq⟩) hlast

end Feed
