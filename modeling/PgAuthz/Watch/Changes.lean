import PgAuthz.Feed.Paging
import PgAuthz.Store.AuditLog

/-!
# The changefeed

`watch_changes` returns the rows of a store above a cursor and before a cutoff, in the order of the
log. Its type, namespace and relation filters do not apply to the events that end a store or a
type.

## Main definitions

* `WatchFilter`: the type, namespace and relation filters
* `Cutoff`: the two forms of the cutoff
* `watchChanges`: `watch_changes`
* `watchCursor`: `watch_cursor`
-/

namespace PgAuthz

/-- The filters of `watch_changes`, by resolved ids; `none` is the SQL `NULL`. The namespace of a
type is that of its dictionary row, if there is one. -/
structure WatchFilter where
  namespaceOf : ℕ → Option String
  objectTypes : Option (List ℕ)
  namespaces : Option (List String)
  relations : Option (List ℕ)

/-- The events that every watcher receives. -/
def AuditAction.lifecycle : AuditAction → Bool
  | storeRetired => true
  | typeRemoved => true
  | _ => false

/-- The three filter conditions of `watch_changes`. -/
def WatchFilter.passes (f : WatchFilter) (r : AuditRow) : Bool :=
  (r.action.lifecycle || f.objectTypes.all fun ts => r.objectType ∈ ts) &&
  (r.action.lifecycle || f.namespaces.all fun ns => (f.namespaceOf r.objectType).any (· ∈ ns)) &&
  (r.action.lifecycle || f.relations.all fun rs => r.relation ∈ rs)

/-- The cutoff: the instant `clock_timestamp() - p_lag`, inclusive, or `p_until`, exclusive. -/
inductive Cutoff
  | lag (horizon : ℤ)
  | until (bound : ℤ)
deriving DecidableEq, Repr

/-- The row is before the cutoff. -/
def Cutoff.admits : Cutoff → AuditRow → Bool
  | lag horizon, r => r.performedAt ≤ horizon
  | .until bound, r => r.performedAt < bound

/-- The rows of a store that pass the filters and the cutoff, in order. -/
def feedRows (log : List AuditRow) (store : ℕ) (cutoff : Cutoff) (f : WatchFilter) : List AuditRow :=
  (inOrder log).filter fun r => r.storeId = store && (cutoff.admits r && f.passes r)

/-- `watch_changes`; without a limit it is unpaged. -/
def watchChanges (log : List AuditRow) (store : ℕ) (after : Cursor) (limit : Option ℕ)
    (cutoff : Cutoff) (f : WatchFilter) : List AuditRow :=
  let rows := (feedRows log store cutoff f).filter fun r => after < r.key
  match limit with
  | none => rows
  | some n => rows.take n

/-- The aggregates `max(performed_at), max(seq)`, one by one; both are `NULL` without rows. -/
def maxCursor (rows : List AuditRow) : Option ℤ × Option ℤ :=
  ((rows.map AuditRow.performedAt).max?, (rows.map AuditRow.seq).max?)

/-- `watch_cursor`. -/
def watchCursor (log : List AuditRow) (store : ℕ) : Option ℤ × Option ℤ :=
  maxCursor (log.filter fun r => r.storeId = store)

theorem mem_feedRows {log : List AuditRow} {store : ℕ} {cutoff : Cutoff} {f : WatchFilter}
    {r : AuditRow} : r ∈ feedRows log store cutoff f ↔
      r ∈ log ∧ r.storeId = store ∧ cutoff.admits r = true ∧ f.passes r = true := by
  simp [feedRows, mem_inOrder]

theorem pairwise_feedRows (log : List AuditRow) (store : ℕ) (cutoff : Cutoff) (f : WatchFilter) :
    (feedRows log store cutoff f).Pairwise fun a b => a.key ≤ b.key :=
  (pairwise_inOrder log).filter _

/-- A cutoff above all rows leaves out none. -/
theorem feedRows_lag_congr {log : List AuditRow} {h h' : ℤ} (hh : ∀ r ∈ log, r.performedAt ≤ h)
    (hh' : ∀ r ∈ log, r.performedAt ≤ h') (store : ℕ) (f : WatchFilter) :
    feedRows log store (.lag h) f = feedRows log store (.lag h') f := by
  refine List.filter_congr fun r hr => ?_
  have hr' := mem_inOrder.mp hr
  simp [Cutoff.admits, hh r hr', hh' r hr']

/-- The instant and the number of a maximum bound those of each row. -/
theorem maxCursor_eq {rows : List AuditRow} (hne : rows ≠ []) :
    ∃ t s, maxCursor rows = (some t, some s) ∧ (∃ r ∈ rows, r.performedAt = t) ∧
      (∃ r ∈ rows, r.seq = s) ∧ ∀ r ∈ rows, r.performedAt ≤ t ∧ r.seq ≤ s := by
  obtain ⟨t, ht⟩ := Option.isSome_iff_exists.mp
    (List.isSome_max?_of_ne_nil (l := rows.map AuditRow.performedAt) (by simpa using hne))
  obtain ⟨s, hs⟩ := Option.isSome_iff_exists.mp
    (List.isSome_max?_of_ne_nil (l := rows.map AuditRow.seq) (by simpa using hne))
  obtain ⟨htmem, htle⟩ := List.max?_eq_some_iff.mp ht
  obtain ⟨hsmem, hsle⟩ := List.max?_eq_some_iff.mp hs
  refine ⟨t, s, by rw [maxCursor, ht, hs], by simpa using htmem, by simpa using hsmem, ?_⟩
  exact fun r hr => ⟨htle _ (List.mem_map_of_mem hr), hsle _ (List.mem_map_of_mem hr)⟩

end PgAuthz
