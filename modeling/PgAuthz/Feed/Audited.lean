import Mathlib
import PgAuthz.Feed.Replay

/-!
# Tables with an audit log

A table of rows with an identity, and a log to which every change of a row appends its events: the
removal of the old row, then the insertion of the new one. An event carries the instant of its
transaction and a number. When transactions come one after the other, the replay of the log up to
an instant gives the table as it was then.

## Main definitions

* `EventView`: how the events of a log are read
* `recordChange`: the events of one change
* `EventView.asOf`: the replay of a log up to an instant
* `Audited`, `Audited.current`, `Audited.replace`: a table with its log
* `EventView.Later`: a log continued after an instant
* `Audited.Faithful`: the log mirrors the table

## Main results

* `Audited.Faithful.replace`: a recorded change keeps the log faithful
* `Audited.Faithful.mem_asOf`: the replay gives the rows of the table
-/

namespace Feed

variable {ε α ι : Type}

/-- How an event is read: the row it is about, whether it inserts the row, the instant of its
transaction and its number. -/
structure EventView (ε α : Type) where
  row : ε → α
  inserted : ε → Bool
  performedAt : ε → ℤ
  seq : ε → ℤ

namespace EventView

variable (v : EventView ε α)

/-- The position of an event: its instant and then its number. -/
def pos (e : ε) : WithBot ℤ ×ₗ ℤ := toLex (↑(v.performedAt e), v.seq e)

/-- The row that an event leaves behind. -/
def leaves (e : ε) : Option α := if v.inserted e then some (v.row e) else none

/-- The rows whose latest event up to the instant `t` is an insertion. -/
def asOf [DecidableEq ι] (ident : α → ι) (t : ℤ) (log : List ε) : List α :=
  ((latest (ident ∘ v.row) v.pos (log.filter fun e => v.performedAt e ≤ t)).filter v.inserted).map
    v.row

theorem pos_lt {a b : ε} (ht : v.performedAt a ≤ v.performedAt b) (hs : v.seq a < v.seq b) :
    v.pos a < v.pos b := by
  rcases ht.lt_or_eq with h | h
  · exact Prod.Lex.toLex_lt_toLex.mpr (.inl (WithBot.coe_lt_coe.mpr h))
  · exact Prod.Lex.toLex_lt_toLex.mpr (.inr ⟨by rw [h], hs⟩)

theorem leaves_eq_some {e : ε} {a : α} :
    v.leaves e = some a ↔ v.inserted e = true ∧ v.row e = a := by
  unfold leaves
  split
  · rename_i h
    simp [h]
  · rename_i h
    simp [h]

end EventView

/-- The events of a change from `old` to `new`: `event` makes the insertion (`true`) or the removal
(`false`) of a row with a number. -/
def recordChange (event : Bool → α → ℤ → ε) (old new : Option α) (seq : ℤ) : List ε :=
  match old, new with
  | some o, some n => [event false o seq, event true n (seq + 1)]
  | none, some n => [event true n seq]
  | some o, none => [event false o seq]
  | none, none => []

theorem mem_recordChange {event : Bool → α → ℤ → ε} {old new : Option α} {seq : ℤ} {e : ε}
    (he : e ∈ recordChange event old new seq) : ∃ ins a n, e = event ins a n := by
  unfold recordChange at he
  split at he
  · rcases List.mem_cons.mp he with rfl | he
    · exact ⟨_, _, _, rfl⟩
    · exact ⟨_, _, _, List.mem_singleton.mp he⟩
  · exact ⟨_, _, _, List.mem_singleton.mp he⟩
  · exact ⟨_, _, _, List.mem_singleton.mp he⟩
  · cases he

/-- The events that `event` makes are read as what they record, at the instant `t`. -/
structure Records (v : EventView ε α) (t : ℤ) (event : Bool → α → ℤ → ε) : Prop where
  row : ∀ ins a n, v.row (event ins a n) = a
  inserted : ∀ ins a n, v.inserted (event ins a n) = ins
  performedAt : ∀ ins a n, v.performedAt (event ins a n) = t
  seq : ∀ ins a n, v.seq (event ins a n) = n

/-- The events of a change are about its row, their numbers are drawn in order, and the last one
leaves the new row behind. -/
theorem recordChange_spec {v : EventView ε α} {t : ℤ} {event : Bool → α → ℤ → ε}
    (hv : Records v t event) {old new : Option α} (hsome : old ≠ none ∨ new ≠ none) (seq : ℤ) :
    (∀ e ∈ recordChange event old new seq, (old = some (v.row e) ∨ new = some (v.row e)) ∧
      v.performedAt e = t ∧ seq ≤ v.seq e ∧
      v.seq e < seq + (recordChange event old new seq).length) ∧
    ((recordChange event old new seq).Pairwise fun a b => v.seq a < v.seq b) ∧
    ∃ e, (recordChange event old new seq).getLast? = some e ∧ v.leaves e = new := by
  cases old with
  | none =>
    cases new with
    | none => simp at hsome
    | some n =>
      simp [recordChange, EventView.leaves, hv.row, hv.inserted, hv.performedAt, hv.seq]
  | some o =>
    cases new with
    | none =>
      simp [recordChange, EventView.leaves, hv.row, hv.inserted, hv.performedAt, hv.seq]
    | some n =>
      simp [recordChange, EventView.leaves, hv.row, hv.inserted, hv.performedAt, hv.seq]

/-- A log continued by events of instants after `t`. -/
def EventView.Later (v : EventView ε α) (t : ℤ) (log log' : List ε) : Prop :=
  ∃ later, log' = log ++ later ∧ ∀ e ∈ later, t < v.performedAt e

namespace EventView.Later

variable {v : EventView ε α} {t : ℤ} {log log' log'' : List ε}

theorem refl (v : EventView ε α) (t : ℤ) (log : List ε) : v.Later t log log := ⟨[], by simp⟩

theorem trans (h : v.Later t log log') (h' : v.Later t log' log'') : v.Later t log log'' := by
  obtain ⟨later, rfl, hlater⟩ := h
  obtain ⟨later', rfl, hlater'⟩ := h'
  refine ⟨later ++ later', List.append_assoc log later later', fun e he => ?_⟩
  rcases List.mem_append.mp he with he | he
  · exact hlater e he
  · exact hlater' e he

end EventView.Later

/-! ## A table and its log -/

/-- A table, its log and the next number. -/
structure Audited (ε α : Type) where
  rows : List α
  log : List ε
  nextSeq : ℤ

namespace Audited

/-- The table before any change. -/
def empty : Audited ε α := ⟨[], [], 1⟩

variable [DecidableEq ι]

/-- The row with the identity `i`. -/
def current (ident : α → ι) (i : ι) (A : Audited ε α) : Option α :=
  A.rows.find? fun a => ident a = i

/-- The row `i` is replaced by `new`, and the events of the change are appended to the log. -/
def replace (ident : α → ι) (event : Bool → α → ℤ → ε) (i : ι) (new : Option α)
    (A : Audited ε α) : Audited ε α :=
  let es := recordChange event (A.current ident i) new A.nextSeq
  ⟨(A.rows.filter fun a => ident a ≠ i) ++ new.toList, A.log ++ es, A.nextSeq + es.length⟩

/-- **The log mirrors the table**: it is in the order of its positions and not ahead of the clock,
and a row is in the table when the last event of its identity leaves it behind. -/
structure Faithful (v : EventView ε α) (ident : α → ι) (clock : ℤ) (A : Audited ε α) : Prop where
  mirrors : ∀ a, a ∈ A.rows ↔ (lastOf (ident ∘ v.row) (ident a) A.log).bind v.leaves = some a
  ordered : A.log.Pairwise fun a b => v.pos a < v.pos b
  performedAt_le : ∀ e ∈ A.log, v.performedAt e ≤ clock
  seq_lt : ∀ e ∈ A.log, v.seq e < A.nextSeq

variable {v : EventView ε α} {ident : α → ι} {clock : ℤ} {A : Audited ε α}

/-- A change after `t` continues the log by events after `t`. -/
theorem later_replace {event : Bool → α → ℤ → ε} (hv : Records v clock event) {t : ℤ}
    (ht : t < clock) (i : ι) (new : Option α) :
    v.Later t A.log (A.replace ident event i new).log := by
  refine ⟨recordChange event (A.current ident i) new A.nextSeq, rfl, fun e he => ?_⟩
  obtain ⟨ins, a, n, rfl⟩ := mem_recordChange he
  rwa [hv.performedAt]

theorem faithful_empty : (empty : Audited ε α).Faithful v ident clock where
  mirrors _ := by simp [empty, lastOf]
  ordered := List.Pairwise.nil
  performedAt_le _ he := by simp [empty] at he
  seq_lt _ he := by simp [empty] at he

namespace Faithful

variable (h : A.Faithful v ident clock)
include h

theorem mono {clock' : ℤ} (hle : clock ≤ clock') : A.Faithful v ident clock' :=
  { h with performedAt_le := fun e he => (h.performedAt_le e he).trans hle }

/-- An identity has at most one row. -/
theorem eq_of_ident {a b : α} (ha : a ∈ A.rows) (hb : b ∈ A.rows) (hab : ident a = ident b) :
    a = b := by
  have ha' := (h.mirrors a).mp ha
  have hb' := (h.mirrors b).mp hb
  rw [hab, hb'] at ha'
  exact (Option.some.inj ha').symm

theorem current_eq_some {i : ι} {a : α} :
    A.current ident i = some a ↔ a ∈ A.rows ∧ ident a = i := by
  constructor
  · intro hc
    exact ⟨List.mem_of_find?_eq_some hc, by simpa using List.find?_some hc⟩
  · rintro ⟨ha, rfl⟩
    cases hc : A.current ident (ident a) with
    | none => exact absurd (List.find?_eq_none.mp hc a ha) (by simp)
    | some b =>
      have hb : ident b = ident a := by simpa using List.find?_some hc
      rw [h.eq_of_ident (List.mem_of_find?_eq_some hc) ha hb]

/-- **A recorded change keeps the log faithful.** -/
theorem replace {event : Bool → α → ℤ → ε} (hv : Records v clock event) {i : ι} {new : Option α}
    (hsome : A.current ident i ≠ none ∨ new ≠ none) (hnew : ∀ a, new = some a → ident a = i) :
    (A.replace ident event i new).Faithful v ident clock := by
  obtain ⟨hes, hseq, last, hlast, hleaves⟩ := recordChange_spec hv hsome A.nextSeq
  set es := recordChange event (A.current ident i) new A.nextSeq with hdef
  have hident : ∀ e ∈ es, ident (v.row e) = i := by
    intro e he
    rcases (hes e he).1 with hold | hnew'
    · exact (h.current_eq_some.mp hold).2
    · exact hnew _ hnew'
  constructor
  · intro a
    change a ∈ (A.rows.filter fun a => ident a ≠ i) ++ new.toList ↔
      (lastOf (ident ∘ v.row) (ident a) (A.log ++ es)).bind v.leaves = some a
    rw [lastOf_append, List.mem_append, List.mem_filter, Option.mem_toList]
    by_cases ha : ident a = i
    · -- the last event of the change decides
      have hfilter : (es.filter fun e => (ident ∘ v.row) e = ident a) = es :=
        List.filter_eq_self.mpr fun e he => by simp [hident e he, ha]
      rw [lastOf, hfilter, hlast, Option.some_or, Option.bind_some, hleaves]
      simp [ha]
    · have hnone : lastOf (ident ∘ v.row) (ident a) es = none :=
        lastOf_eq_none.mpr fun e he => by simpa [hident e he] using Ne.symm ha
      rw [hnone, Option.none_or, ← h.mirrors a]
      constructor
      · rintro (⟨hmem, -⟩ | hmem)
        · exact hmem
        · exact absurd (hnew a hmem) ha
      · intro hmem
        exact .inl ⟨hmem, by simpa using ha⟩
  · refine List.pairwise_append.mpr ⟨h.ordered, ?_, ?_⟩
    · refine hseq.imp_of_mem fun {a b} ha hb hlt => v.pos_lt ?_ hlt
      rw [(hes a ha).2.1, (hes b hb).2.1]
    · intro a ha b hb
      refine v.pos_lt ?_ ((h.seq_lt a ha).trans_le (hes b hb).2.2.1)
      rw [(hes b hb).2.1]
      exact h.performedAt_le a ha
  · intro e he
    rcases List.mem_append.mp he with he | he
    · exact h.performedAt_le e he
    · exact (hes e he).2.1.le
  · intro e he
    change v.seq e < A.nextSeq + es.length
    rcases List.mem_append.mp he with he | he
    · exact (h.seq_lt e he).trans_le (by omega)
    · exact (hes e he).2.2.2

/-- **The replay up to an instant gives the rows of the table** as it was then: at `t` the log was
that of the table, and every later event is of a later instant. -/
theorem mem_asOf {t : ℤ} (ht : clock ≤ t) {log : List ε} (hlog : v.Later t A.log log) {a : α} :
    a ∈ v.asOf ident t log ↔ a ∈ A.rows := by
  obtain ⟨later, rfl, hlater⟩ := hlog
  have hfilter : ((A.log ++ later).filter fun e => decide (v.performedAt e ≤ t)) = A.log := by
    rw [List.filter_append, List.filter_eq_self.mpr, List.filter_eq_nil_iff.mpr, List.append_nil]
    · intro e he
      simpa using hlater e he
    · intro e he
      simpa using (h.performedAt_le e he).trans ht
  have hordered : Ordered (ident ∘ v.row) v.pos A.log := by
    refine h.ordered.imp ?_
    intro a b hlt _
    exact hlt
  unfold EventView.asOf
  rw [hfilter, h.mirrors a, List.mem_map]
  constructor
  · rintro ⟨e, he, rfl⟩
    obtain ⟨he, hins⟩ := List.mem_filter.mp he
    have hlast := (mem_latest_iff hordered).mp he
    rw [Function.comp_apply] at hlast
    rw [hlast, Option.bind_some, v.leaves_eq_some]
    exact ⟨hins, rfl⟩
  · intro hlast
    obtain ⟨e, he, hleaves⟩ := Option.bind_eq_some_iff.mp hlast
    obtain ⟨hins, rfl⟩ := v.leaves_eq_some.mp hleaves
    exact ⟨e, List.mem_filter.mpr ⟨(mem_latest_iff hordered).mpr he, hins⟩, rfl⟩

end Faithful

end Audited

end Feed
