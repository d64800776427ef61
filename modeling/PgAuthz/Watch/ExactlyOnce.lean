import PgAuthz.Transition.Runs
import PgAuthz.Watch.Changes

/-!
# The changefeed delivers every row once

Transactions start, write audit rows, and commit or abort in any order, while a consumer captures
`watch_safe_until` and reads pages below that bound. A row carries the start of its transaction, so
it may appear in the log below rows that were committed before it; but it cannot appear below a
bound that was captured while its transaction was open, or before it started. What the consumer
has received is therefore at all times the committed part of the log up to its cursor.

## Main definitions

* `Tx`, `FeedState`, `FeedEvent`, `feedStep`: the transactions, the log and the consumer
* `watchSafeUntil`: `watch_safe_until`
* `FeedInv`: what holds in every reachable state

## Main results

* `feedInv_step`: every step keeps the invariant
* `lt_of_committed_later`: no row is committed later at or below the cursor
* `received_of_reads`: enough reads below a bound receive every row below it
* `changefeed_exactly_once`: the consumer receives every committed row once and in order
-/

namespace PgAuthz

open Feed Transition

/-! ## Transactions and the consumer -/

/-- An open transaction: its start, and the audit rows it has written. -/
structure Tx where
  start : ℤ
  rows : List AuditRow
deriving DecidableEq, Repr

/-- The clock, the sequence of the log, the open transactions, the committed log, and the consumer
with its cursor, the bound it has captured and the rows it has received. -/
structure FeedState where
  clock : ℤ
  nextSeq : ℤ
  opened : List Tx
  log : List AuditRow
  cursor : Cursor
  bound : Option ℤ
  received : List AuditRow

/-- What can happen next. A transaction is named by its place among the open ones. The consumer
captures a bound inside a transaction that started at `own`, and may read inside an open
transaction, whose own rows it then sees. -/
inductive FeedEvent
  | tick (d : ℕ)
  | start
  | write (i : ℕ) (r : AuditRow)
  | rollback (i n : ℕ)
  | commit (i : ℕ)
  | abort (i : ℕ)
  | capture (lag own : ℤ)
  | read (limit : ℕ) (own : Option ℕ)

/-- `watch_safe_until` at the instant `clock`, in a transaction that started at `own`, where
`pg_stat_activity` shows transactions that started at `starts`. -/
def watchSafeUntil (clock lag : ℤ) (starts : List ℤ) (own : ℤ) : ℤ :=
  min (min (clock - lag) (starts.min?.getD (clock - lag))) own

/-- The state before any transaction; the consumer asks from the beginning. -/
def FeedState.init (clock : ℤ) : FeedState := ⟨clock, 1, [], [], toLex (⊥, 0), none, []⟩

variable (store : ℕ) (f : WatchFilter)

/-- The next state, unless the event cannot happen. -/
def feedStep (s : FeedState) : FeedEvent → Option FeedState
  | .tick d => some { s with clock := s.clock + d }
  | .start => some { s with opened := s.opened ++ [⟨s.clock, []⟩] }
  | .write i r => s.opened[i]?.map fun tx =>
    { s with
      nextSeq := s.nextSeq + 1
      opened := s.opened.set i
        { tx with rows := tx.rows ++ [{ r with seq := s.nextSeq, performedAt := tx.start }] } }
  | .rollback i n => s.opened[i]?.map fun tx =>
    { s with opened := s.opened.set i { tx with rows := tx.rows.take n } }
  | .commit i => s.opened[i]?.map fun tx =>
    { s with opened := s.opened.eraseIdx i, log := s.log ++ tx.rows }
  | .abort i => s.opened[i]?.map fun _ => { s with opened := s.opened.eraseIdx i }
  | .capture lag own =>
    if own ≤ s.clock then
      some { s with bound := some (watchSafeUntil s.clock lag (s.opened.map Tx.start) own) }
    else none
  | .read limit own => s.bound.map fun b =>
    let visible := s.log ++ (own.bind (s.opened[·]?)).elim [] Tx.rows
    let page := watchChanges visible store s.cursor (some limit) (.until b) f
    { s with
      cursor := lastKey AuditRow.key s.cursor page
      received := s.received ++ page }

/-- The committed rows that the consumer asks for, in order. -/
def feed (log : List AuditRow) : List AuditRow :=
  (inOrder log).filter fun r => r.storeId = store && f.passes r

/-- The rows of the log and of the open transactions. -/
def FeedState.rows (s : FeedState) : List AuditRow := s.log ++ s.opened.flatMap Tx.rows

/-- **The invariant.** The captured bound is at or below the clock and the start of every open
transaction, the cursor is below them, and the rows received are those of the log up to the
cursor. -/
structure FeedInv (s : FeedState) : Prop where
  start_le : ∀ tx ∈ s.opened, tx.start ≤ s.clock
  row_start : ∀ tx ∈ s.opened, ∀ r ∈ tx.rows, r.performedAt = tx.start
  seq_lt : ∀ r ∈ s.rows, r.seq < s.nextSeq
  seq_nodup : (s.rows.map AuditRow.seq).Nodup
  bound_le_clock : ∀ b ∈ s.bound, b ≤ s.clock
  bound_le_start : ∀ b ∈ s.bound, ∀ tx ∈ s.opened, b ≤ tx.start
  cursor_lt_clock : (ofLex s.cursor).1 < ↑s.clock
  cursor_lt_start : ∀ tx ∈ s.opened, (ofLex s.cursor).1 < ↑tx.start
  received_eq : s.received = (feed store f s.log).filter fun r => r.key ≤ s.cursor

variable {store f} {s s' : FeedState}

/-! ## Rows in order -/

theorem mem_feed {log : List AuditRow} {r : AuditRow} :
    r ∈ feed store f log ↔ r ∈ log ∧ r.storeId = store ∧ f.passes r = true := by
  simp [feed, mem_inOrder]

/-- Rows with distinct numbers are in strict order. -/
theorem pairwise_inOrder_lt {log : List AuditRow} (hlog : (log.map AuditRow.seq).Nodup) :
    (inOrder log).Pairwise fun a b => a.key < b.key := by
  have hnodup : (inOrder log).Pairwise fun a b => a.seq ≠ b.seq := by
    have hperm : ((inOrder log).map AuditRow.seq).Perm (log.map AuditRow.seq) :=
      (List.perm_insertionSort _ log).map _
    exact List.pairwise_map.mp (hperm.nodup_iff.mpr hlog)
  refine (pairwise_inOrder log).imp₂ (fun a b hle hne => hle.lt_of_ne fun heq => hne ?_) hnodup
  exact (Prod.mk.inj (toLex.injective heq)).2

theorem pairwise_feed {log : List AuditRow} (hlog : (log.map AuditRow.seq).Nodup) :
    (feed store f log).Pairwise fun a b => a.key < b.key :=
  (pairwise_inOrder_lt hlog).filter _

/-- The rows in order depend on which rows there are only. -/
theorem filter_inOrder_congr {log log' : List AuditRow} {p p' : AuditRow → Bool}
    (hlog : (log.map AuditRow.seq).Nodup) (hlog' : (log'.map AuditRow.seq).Nodup)
    (h : ∀ r, r ∈ log ∧ p r = true ↔ r ∈ log' ∧ p' r = true) :
    (inOrder log).filter p = (inOrder log').filter p' := by
  refine eq_of_mem_iff AuditRow.key ((pairwise_inOrder_lt hlog).filter _)
    ((pairwise_inOrder_lt hlog').filter _) fun r => ?_
  rw [List.mem_filter, List.mem_filter, mem_inOrder, mem_inOrder]
  exact h r

/-! ## Open transactions -/

/-- Starts that are among the old ones keep what the invariant says of them. -/
theorem FeedInv.of_starts (h : FeedInv store f s) {opened : List Tx} {log : List AuditRow}
    {nextSeq : ℤ} (hstart : ∀ tx ∈ opened, ∃ tx' ∈ s.opened, tx.start = tx'.start)
    (hrow : ∀ tx ∈ opened, ∀ r ∈ tx.rows, r.performedAt = tx.start)
    (hseq : ∀ r ∈ log ++ opened.flatMap Tx.rows, r.seq < nextSeq)
    (hnodup : ((log ++ opened.flatMap Tx.rows).map AuditRow.seq).Nodup)
    (hlog : ((feed store f log).filter fun r => r.key ≤ s.cursor) =
      (feed store f s.log).filter fun r => r.key ≤ s.cursor) :
    FeedInv store f { s with opened := opened, log := log, nextSeq := nextSeq } where
  start_le tx htx := by
    obtain ⟨tx', htx', heq⟩ := hstart tx htx
    exact heq ▸ h.start_le tx' htx'
  row_start := hrow
  seq_lt := hseq
  seq_nodup := hnodup
  bound_le_clock := h.bound_le_clock
  bound_le_start b hb tx htx := by
    obtain ⟨tx', htx', heq⟩ := hstart tx htx
    exact heq ▸ h.bound_le_start b hb tx' htx'
  cursor_lt_clock := h.cursor_lt_clock
  cursor_lt_start tx htx := by
    obtain ⟨tx', htx', heq⟩ := hstart tx htx
    exact heq ▸ h.cursor_lt_start tx' htx'
  received_eq := h.received_eq.trans hlog.symm

theorem FeedInv.log_nodup (h : FeedInv store f s) : (s.log.map AuditRow.seq).Nodup := by
  have hnodup := h.seq_nodup
  rw [FeedState.rows, List.map_append] at hnodup
  exact (List.nodup_append.mp hnodup).1

/-- A row that an open transaction may still commit is above the cursor. -/
theorem FeedInv.cursor_lt_row (h : FeedInv store f s) {tx : Tx} (htx : tx ∈ s.opened)
    {r : AuditRow} (hr : r ∈ tx.rows) : s.cursor < r.key := by
  have hlt := h.cursor_lt_start tx htx
  rw [← h.row_start tx htx r hr] at hlt
  exact Prod.Lex.toLex_lt_toLex.mpr (.inl hlt)

theorem feedInv_init (clock : ℤ) : FeedInv store f (FeedState.init clock) where
  start_le := by simp [FeedState.init]
  row_start := by simp [FeedState.init]
  seq_lt := by simp [FeedState.init, FeedState.rows]
  seq_nodup := by simp [FeedState.init, FeedState.rows]
  bound_le_clock := by simp [FeedState.init]
  bound_le_start := by simp [FeedState.init]
  cursor_lt_clock := WithBot.bot_lt_coe clock
  cursor_lt_start := by simp [FeedState.init]
  received_eq := rfl

/-! ## What the steps keep -/

theorem FeedInv.tick (h : FeedInv store f s) (d : ℕ) :
    FeedInv store f { s with clock := s.clock + d } := by
  have hle : s.clock ≤ s.clock + d := by omega
  exact
    { h with
      start_le := fun tx htx => (h.start_le tx htx).trans hle
      bound_le_clock := fun b hb => (h.bound_le_clock b hb).trans hle
      cursor_lt_clock := h.cursor_lt_clock.trans_le (WithBot.coe_le_coe.mpr hle) }

/-- A transaction starts at the clock, at or above the bound and above the cursor. -/
theorem FeedInv.start (h : FeedInv store f s) :
    FeedInv store f { s with opened := s.opened ++ [⟨s.clock, []⟩] } := by
  have hcases : ∀ {P : Tx → Prop}, (∀ tx ∈ s.opened, P tx) → P ⟨s.clock, []⟩ →
      ∀ tx ∈ s.opened ++ [⟨s.clock, []⟩], P tx := by
    intro P hold hnew tx htx
    rcases List.mem_append.mp htx with htx | htx
    · exact hold tx htx
    · rw [List.mem_singleton.mp htx]
      exact hnew
  have hrows : FeedState.rows { s with opened := s.opened ++ [⟨s.clock, []⟩] } = s.rows := by
    simp [FeedState.rows]
  exact
    { h with
      start_le := hcases h.start_le le_rfl
      row_start := hcases h.row_start (by simp)
      seq_lt := hrows ▸ h.seq_lt
      seq_nodup := hrows ▸ h.seq_nodup
      bound_le_start := fun b hb => hcases (h.bound_le_start b hb) (h.bound_le_clock b hb)
      cursor_lt_start := hcases h.cursor_lt_start h.cursor_lt_clock }

/-- A write draws the next number and carries the start of its transaction. -/
theorem FeedInv.write (h : FeedInv store f s) {i : ℕ} {tx : Tx} (htx : s.opened[i]? = some tx)
    (r : AuditRow) : FeedInv store f
      { s with
        nextSeq := s.nextSeq + 1
        opened := s.opened.set i
          { tx with rows := tx.rows ++ [{ r with seq := s.nextSeq, performedAt := tx.start }] } } := by
  obtain ⟨l₁, l₂, hopened, hset, -⟩ := split_of_getElem? htx
  rw [hset]
  set row : AuditRow := { r with seq := s.nextSeq, performedAt := tx.start } with hrow
  have hmem : tx ∈ s.opened := List.mem_of_getElem? htx
  -- the rows after the write are those of before and the new one
  have hperm : (s.log ++ (l₁ ++ { tx with rows := tx.rows ++ [row] } :: l₂).flatMap Tx.rows).Perm
      (row :: s.rows) := by
    rw [FeedState.rows, hopened, List.perm_iff_count]
    intro a
    simp only [List.flatMap_append, List.flatMap_cons, List.count_append, List.count_cons,
      List.count_nil]
    omega
  refine h.of_starts ?_ ?_ ?_ ?_ rfl
  · intro tx' htx'
    rcases List.mem_append.mp htx' with htx' | htx'
    · exact ⟨tx', by simp [hopened, htx'], rfl⟩
    · rcases List.mem_cons.mp htx' with rfl | htx'
      · exact ⟨tx, hmem, rfl⟩
      · exact ⟨tx', by simp [hopened, htx'], rfl⟩
  · intro tx' htx' r' hr'
    rcases List.mem_append.mp htx' with htx' | htx'
    · exact h.row_start tx' (by simp [hopened, htx']) r' hr'
    · rcases List.mem_cons.mp htx' with rfl | htx'
      · rcases List.mem_append.mp hr' with hr' | hr'
        · exact h.row_start tx hmem r' hr'
        · rw [List.mem_singleton.mp hr']
      · exact h.row_start tx' (by simp [hopened, htx']) r' hr'
  · intro r' hr'
    rcases List.mem_cons.mp (hperm.mem_iff.mp hr') with rfl | hr'
    · exact Int.lt_succ s.nextSeq
    · exact (h.seq_lt r' hr').trans (Int.lt_succ _)
  · refine ((hperm.map _).nodup_iff).mpr (List.nodup_cons.mpr ⟨fun hdup => ?_, h.seq_nodup⟩)
    obtain ⟨r', hr', heq⟩ := List.mem_map.mp hdup
    exact absurd (h.seq_lt r' hr') (by simp [heq, hrow])

/-- A rollback to a savepoint forgets the rows written after it. -/
theorem FeedInv.rollback (h : FeedInv store f s) {i : ℕ} {tx : Tx} (htx : s.opened[i]? = some tx)
    (n : ℕ) :
    FeedInv store f { s with opened := s.opened.set i { tx with rows := tx.rows.take n } } := by
  obtain ⟨l₁, l₂, hopened, hset, -⟩ := split_of_getElem? htx
  rw [hset]
  have hmem : tx ∈ s.opened := List.mem_of_getElem? htx
  have hsub : (s.log ++ (l₁ ++ { tx with rows := tx.rows.take n } :: l₂).flatMap Tx.rows).Sublist
      s.rows := by
    rw [FeedState.rows, hopened]
    simp only [List.flatMap_append, List.flatMap_cons]
    exact .append (.refl _) (.append (.refl _) (.append (List.take_sublist _ _) (.refl _)))
  -- each transaction is an old one with some of its rows
  have hold : ∀ tx' ∈ l₁ ++ { tx with rows := tx.rows.take n } :: l₂,
      ∃ tx'' ∈ s.opened, tx'.start = tx''.start ∧ ∀ r ∈ tx'.rows, r ∈ tx''.rows := by
    intro tx' htx'
    rcases List.mem_append.mp htx' with htx' | htx'
    · exact ⟨tx', by simp [hopened, htx'], rfl, fun r hr => hr⟩
    · rcases List.mem_cons.mp htx' with rfl | htx'
      · exact ⟨tx, hmem, rfl, fun r hr => List.mem_of_mem_take hr⟩
      · exact ⟨tx', by simp [hopened, htx'], rfl, fun r hr => hr⟩
  refine h.of_starts ?_ ?_ (fun r hr => h.seq_lt r (hsub.subset hr))
    (h.seq_nodup.sublist (hsub.map _)) rfl
  · intro tx' htx'
    obtain ⟨tx'', htx'', heq, -⟩ := hold tx' htx'
    exact ⟨tx'', htx'', heq⟩
  · intro tx' htx' r hr
    obtain ⟨tx'', htx'', heq, hrows⟩ := hold tx' htx'
    exact heq ▸ h.row_start tx'' htx'' r (hrows r hr)

/-- A transaction ends: it commits some or none of its rows, all of them above the cursor. -/
theorem FeedInv.finish (h : FeedInv store f s) {i : ℕ} {tx : Tx} (htx : s.opened[i]? = some tx)
    {rows : List AuditRow} (hrows : rows.Sublist tx.rows) :
    FeedInv store f { s with opened := s.opened.eraseIdx i, log := s.log ++ rows } := by
  obtain ⟨l₁, l₂, hopened, -, herase⟩ := split_of_getElem? htx
  rw [herase]
  have hmem : tx ∈ s.opened := List.mem_of_getElem? htx
  have hold : ∀ tx' ∈ l₁ ++ l₂, tx' ∈ s.opened := by
    intro tx' htx'
    rw [hopened]
    exact (List.sublist_append_right [tx] l₂).append_left l₁ |>.subset htx'
  have hperm : (s.log ++ rows ++ (l₁ ++ l₂).flatMap Tx.rows).Perm
      (s.log ++ (l₁.flatMap Tx.rows ++ (rows ++ l₂.flatMap Tx.rows))) := by
    rw [List.perm_iff_count]
    intro a
    simp only [List.flatMap_append, List.count_append]
    omega
  have hsub : (s.log ++ (l₁.flatMap Tx.rows ++ (rows ++ l₂.flatMap Tx.rows))).Sublist s.rows := by
    rw [FeedState.rows, hopened]
    simp only [List.flatMap_append, List.flatMap_cons]
    exact .append (.refl _) (.append (.refl _) (.append hrows (.refl _)))
  have hnodup : ((s.log ++ rows ++ (l₁ ++ l₂).flatMap Tx.rows).map AuditRow.seq).Nodup :=
    (hperm.map _).nodup_iff.mpr (h.seq_nodup.sublist (hsub.map _))
  refine h.of_starts (fun tx' htx' => ⟨tx', hold tx' htx', rfl⟩)
    (fun tx' htx' => h.row_start tx' (hold tx' htx'))
    (fun r hr => h.seq_lt r (hsub.subset (hperm.mem_iff.mp hr))) hnodup ?_
  -- the rows up to the cursor are the old ones
  rw [feed, feed, List.filter_filter, List.filter_filter]
  rw [List.map_append] at hnodup
  refine filter_inOrder_congr (List.nodup_append.mp hnodup).1 h.log_nodup fun r => ?_
  rw [List.mem_append, Bool.and_eq_true, decide_eq_true_eq]
  constructor
  · rintro ⟨hr | hr, hle, hp⟩
    · exact ⟨hr, hle, hp⟩
    · exact absurd hle (not_le.mpr (h.cursor_lt_row hmem (hrows.subset hr)))
  · rintro ⟨hr, hle, hp⟩
    exact ⟨.inl hr, hle, hp⟩

theorem watchSafeUntil_le {clock lag own : ℤ} {starts : List ℤ} :
    watchSafeUntil clock lag starts own ≤ own ∧
      ∀ t ∈ starts, watchSafeUntil clock lag starts own ≤ t := by
  refine ⟨min_le_right _ _, fun t ht => ?_⟩
  obtain ⟨m, hm⟩ := Option.isSome_iff_exists.mp (List.isSome_min?_of_mem ht)
  have hle : m ≤ t := (List.min?_eq_some_iff.mp hm).2 t ht
  unfold watchSafeUntil
  rw [hm, Option.getD_some]
  exact ((min_le_left _ _).trans (min_le_right _ _)).trans hle

/-- The captured bound is at or below the start of the caller and of every open transaction. -/
theorem FeedInv.capture (h : FeedInv store f s) {lag own : ℤ} (hown : own ≤ s.clock) :
    FeedInv store f
      { s with bound := some (watchSafeUntil s.clock lag (s.opened.map Tx.start) own) } :=
  { h with
    bound_le_clock := fun b hb => by
      cases hb
      exact watchSafeUntil_le.1.trans hown
    bound_le_start := fun b hb tx htx => by
      cases hb
      exact watchSafeUntil_le.2 _ (List.mem_map_of_mem htx) }

/-- The rows below a bound that the consumer may read. -/
def below (store : ℕ) (f : WatchFilter) (b : ℤ) (log : List AuditRow) : List AuditRow :=
  (feed store f log).filter fun r => r.performedAt < b

/-- The page that the consumer reads holds committed rows only: the rows of the transaction it may
read in are not below the bound. -/
theorem FeedInv.page_eq (h : FeedInv store f s) {b : ℤ} (hb : s.bound = some b) (limit : ℕ)
    (own : Option ℕ) :
    watchChanges (s.log ++ (own.bind (s.opened[·]?)).elim [] Tx.rows) store s.cursor (some limit)
        (.until b) f =
      pageAfter AuditRow.key limit s.cursor (below store f b s.log) := by
  cases htx : own.bind (s.opened[·]?) with
  | none =>
    rw [Option.elim_none, List.append_nil, below, feed, List.filter_filter]
    simp only [watchChanges, feedRows, pageAfter, Cutoff.admits, Bool.and_left_comm]
  | some tx =>
    obtain ⟨i, -, hi⟩ := Option.bind_eq_some_iff.mp htx
    have hmem : tx ∈ s.opened := List.mem_of_getElem? hi
    obtain ⟨l₁, l₂, hopened, -⟩ := split_of_getElem? hi
    have hsub : (s.log ++ tx.rows).Sublist s.rows := by
      rw [FeedState.rows, hopened, List.flatMap_append, List.flatMap_cons]
      exact .append (.refl _) ((List.sublist_append_left _ _).trans (List.sublist_append_right _ _))
    have hrows : feedRows (s.log ++ tx.rows) store (.until b) f = below store f b s.log := by
      rw [below, feed, List.filter_filter, feedRows]
      refine filter_inOrder_congr (h.seq_nodup.sublist (hsub.map _)) h.log_nodup fun r => ?_
      simp only [Cutoff.admits, List.mem_append, Bool.and_eq_true, decide_eq_true_eq]
      constructor
      · rintro ⟨hr | hr, hstore, hlt, hp⟩
        · exact ⟨hr, hlt, hstore, hp⟩
        · -- a row of the open transaction carries its start
          have := h.bound_le_start b hb tx hmem
          rw [h.row_start tx hmem r hr] at hlt
          omega
      · rintro ⟨hr, hlt, hstore, hp⟩
        exact ⟨.inl hr, hstore, hlt, hp⟩
    rw [Option.elim_some]
    simp only [watchChanges, hrows, pageAfter]

/-- The cursor after a page is below every instant that is not below the bound. -/
theorem cursor_lt_of_bound_le {b t : ℤ} {log : List AuditRow} {c : Cursor} {limit : ℕ}
    (hc : (ofLex c).1 < ↑t) (hbt : b ≤ t) :
    (ofLex (lastKey AuditRow.key c (pageAfter AuditRow.key limit c (below store f b log)))).1 <
      ↑t := by
  unfold lastKey
  cases hlast : (pageAfter AuditRow.key limit c (below store f b log)).getLast? with
  | none => exact hc
  | some r =>
    have hmem := (List.mem_filter.mp (List.mem_of_mem_take (List.mem_of_getLast? hlast))).1
    have hlt : r.performedAt < b := by simpa using (List.mem_filter.mp hmem).2
    exact WithBot.coe_lt_coe.mpr (hlt.trans_le hbt)

/-- A read extends what was received to the rows of the log up to the new cursor. -/
theorem FeedInv.read (h : FeedInv store f s) {b : ℤ} (hb : s.bound = some b) (limit : ℕ) :
    FeedInv store f
      { s with
        cursor := lastKey AuditRow.key s.cursor
          (pageAfter AuditRow.key limit s.cursor (below store f b s.log))
        received := s.received ++ pageAfter AuditRow.key limit s.cursor (below store f b s.log) } :=
  { h with
    cursor_lt_clock := cursor_lt_of_bound_le h.cursor_lt_clock (h.bound_le_clock b hb)
    cursor_lt_start := fun tx htx =>
      cursor_lt_of_bound_le (h.cursor_lt_start tx htx) (h.bound_le_start b hb tx htx)
    received_eq := by
      refine (congrArg (· ++ _) h.received_eq).trans ?_
      refine filter_le_append_page (pairwise_feed h.log_nodup) (fun r r' hle hlt => ?_) limit s.cursor
      have := AuditRow.performedAt_le_of_key_le hle
      simp only [decide_eq_true_eq] at hlt ⊢
      omega }

/-- A read takes the next page of the committed rows below the bound. -/
theorem FeedInv.step_read (h : FeedInv store f s) {limit : ℕ} {own : Option ℕ}
    (hstep : feedStep store f s (.read limit own) = some s') :
    ∃ b, s.bound = some b ∧ s' =
      { s with
        cursor := lastKey AuditRow.key s.cursor
          (pageAfter AuditRow.key limit s.cursor (below store f b s.log))
        received := s.received ++
          pageAfter AuditRow.key limit s.cursor (below store f b s.log) } := by
  obtain ⟨b, hb, rfl⟩ := Option.map_eq_some_iff.mp hstep
  refine ⟨b, hb, ?_⟩
  dsimp only
  rw [h.page_eq hb]

/-- **Every step keeps the invariant.** -/
theorem feedInv_step : Keeps (feedStep store f) (FeedInv store f) := by
  intro s e s' h hstep
  cases e with
  | tick d =>
    cases hstep
    exact h.tick d
  | start =>
    cases hstep
    exact h.start
  | write i r =>
    obtain ⟨tx, htx, rfl⟩ := Option.map_eq_some_iff.mp hstep
    exact h.write htx r
  | rollback i n =>
    obtain ⟨tx, htx, rfl⟩ := Option.map_eq_some_iff.mp hstep
    exact h.rollback htx n
  | commit i =>
    obtain ⟨tx, htx, rfl⟩ := Option.map_eq_some_iff.mp hstep
    exact h.finish htx (.refl _)
  | abort i =>
    obtain ⟨tx, htx, rfl⟩ := Option.map_eq_some_iff.mp hstep
    have hnone := h.finish htx (List.nil_sublist tx.rows)
    rwa [List.append_nil] at hnone
  | capture lag own =>
    rw [feedStep] at hstep
    split at hstep
    · rename_i hown
      cases hstep
      exact h.capture hown
    · cases hstep
  | read limit own =>
    obtain ⟨b, hb, rfl⟩ := h.step_read hstep
    exact h.read hb limit

/-! ## What later steps can do -/

/-- The ways a step changes what the consumer may still receive: time goes on, a new transaction
starts at the clock, only open transactions add to the log, and the cursor moves forward. -/
structure StepEffect (s s' : FeedState) : Prop where
  clock_le : s.clock ≤ s'.clock
  start_of : ∀ tx ∈ s'.opened, tx.start = s.clock ∨ ∃ tx' ∈ s.opened, tx.start = tx'.start
  log_subset : ∀ r ∈ s.log, r ∈ s'.log
  log_of : ∀ r ∈ s'.log, r ∈ s.log ∨ ∃ tx ∈ s.opened, r ∈ tx.rows
  cursor_le : s.cursor ≤ s'.cursor

theorem step_effect (h : FeedInv store f s) {e : FeedEvent} (hstep : feedStep store f s e = some s') :
    StepEffect s s' := by
  have hsame : ∀ tx ∈ s.opened, tx.start = s.clock ∨ ∃ tx' ∈ s.opened, tx.start = tx'.start :=
    fun tx htx => .inr ⟨tx, htx, rfl⟩
  have hlog : ∀ r ∈ s.log, r ∈ s.log ∨ ∃ tx ∈ s.opened, r ∈ tx.rows := fun r hr => .inl hr
  -- a transaction replaced by one with its start
  have hset : ∀ i (tx tx' : Tx), s.opened[i]? = some tx → tx'.start = tx.start →
      ∀ tx'' ∈ s.opened.set i tx',
        tx''.start = s.clock ∨ ∃ tx' ∈ s.opened, tx''.start = tx'.start := by
    intro i tx tx' htx heq tx'' htx''
    rcases List.mem_or_eq_of_mem_set htx'' with hmem | rfl
    · exact hsame tx'' hmem
    · exact .inr ⟨tx, List.mem_of_getElem? htx, heq⟩
  cases e with
  | tick d =>
    cases hstep
    exact ⟨Int.le_add_of_nonneg_right (Int.natCast_nonneg d), hsame, fun r hr => hr, hlog, le_rfl⟩
  | start =>
    cases hstep
    refine ⟨le_rfl, fun tx htx => ?_, fun r hr => hr, hlog, le_rfl⟩
    rcases List.mem_append.mp htx with htx | htx
    · exact hsame tx htx
    · exact .inl (by rw [List.mem_singleton.mp htx])
  | write i r =>
    obtain ⟨tx, htx, rfl⟩ := Option.map_eq_some_iff.mp hstep
    exact ⟨le_rfl, hset i tx _ htx rfl, fun r hr => hr, hlog, le_rfl⟩
  | rollback i n =>
    obtain ⟨tx, htx, rfl⟩ := Option.map_eq_some_iff.mp hstep
    exact ⟨le_rfl, hset i tx _ htx rfl, fun r hr => hr, hlog, le_rfl⟩
  | commit i =>
    obtain ⟨tx, htx, rfl⟩ := Option.map_eq_some_iff.mp hstep
    refine ⟨le_rfl, fun tx' htx' => hsame tx' (List.mem_of_mem_eraseIdx htx'),
      fun r hr => List.mem_append_left _ hr, fun r hr => ?_, le_rfl⟩
    exact (List.mem_append.mp hr).imp_right fun hr => ⟨tx, List.mem_of_getElem? htx, hr⟩
  | abort i =>
    obtain ⟨tx, htx, rfl⟩ := Option.map_eq_some_iff.mp hstep
    exact ⟨le_rfl, fun tx' htx' => hsame tx' (List.mem_of_mem_eraseIdx htx'), fun r hr => hr, hlog,
      le_rfl⟩
  | capture lag own =>
    rw [feedStep] at hstep
    split at hstep
    · cases hstep
      exact ⟨le_rfl, hsame, fun r hr => hr, hlog, le_rfl⟩
    · cases hstep
  | read limit own =>
    obtain ⟨b, -, rfl⟩ := h.step_read hstep
    exact ⟨le_rfl, hsame, fun r hr => hr, hlog, le_lastKey s.cursor⟩

/-- **No row is committed later at or below a cursor already passed.** -/
theorem lt_of_committed_later (h : FeedInv store f s) {es : List FeedEvent}
    (hrun : run (feedStep store f) s es = some s') :
    s.cursor ≤ s'.cursor ∧ (∀ r ∈ s.log, r ∈ s'.log) ∧
      ∀ r ∈ s'.log, r ∈ s.log ∨ s.cursor < r.key := by
  refine run_rel feedInv_step (R := fun s s' => s.cursor ≤ s'.cursor ∧ (∀ r ∈ s.log, r ∈ s'.log) ∧
    ∀ r ∈ s'.log, r ∈ s.log ∨ s.cursor < r.key) ?_ ?_ ?_ h hrun
  · exact fun s => ⟨le_rfl, fun r hr => hr, fun r hr => .inl hr⟩
  · rintro a b c ⟨hab, hsub, hlog⟩ ⟨hbc, hsub', hlog'⟩
    refine ⟨hab.trans hbc, fun r hr => hsub' r (hsub r hr), fun r hr => ?_⟩
    rcases hlog' r hr with hr | hr
    · exact hlog r hr
    · exact .inr (hab.trans_lt hr)
  · intro s e s' h hstep
    have heff := step_effect h hstep
    refine ⟨heff.cursor_le, heff.log_subset, fun r hr => ?_⟩
    rcases heff.log_of r hr with hr | ⟨tx, htx, hr⟩
    · exact .inl hr
    · exact .inr (h.cursor_lt_row htx hr)

/-! ## Progress -/

/-- The log is final up to the instant `t`: every row still to come carries a later one. -/
def Final (t : ℤ) (s : FeedState) : Prop := t < s.clock ∧ ∀ tx ∈ s.opened, t < tx.start

theorem final_step (t : ℤ) : Keeps (feedStep store f) fun s => FeedInv store f s ∧ Final t s := by
  rintro s e s' ⟨h, hclock, hstart⟩ hstep
  have heff := step_effect h hstep
  refine ⟨feedInv_step s e s' h hstep, hclock.trans_le heff.clock_le, fun tx htx => ?_⟩
  rcases heff.start_of tx htx with heq | ⟨tx', htx', heq⟩
  · exact heq ▸ hclock
  · exact heq ▸ hstart tx' htx'

/-- Below a captured bound the log is final. -/
theorem FeedInv.final (h : FeedInv store f s) {b t : ℤ} (hb : s.bound = some b) (ht : t < b) :
    Final t s :=
  ⟨ht.trans_le (h.bound_le_clock b hb), fun tx htx => ht.trans_le (h.bound_le_start b hb tx htx)⟩

/-- A read that may return rows of the instant `t`. -/
def readsPast (t : ℤ) (s : FeedState) : FeedEvent → Bool
  | .read limit _ => decide (0 < limit) && s.bound.any fun b => t < b
  | _ => false

variable (store f) in
/-- The number of reads in a run that may return rows of the instant `t`. -/
def countReads (t : ℤ) : FeedState → List FeedEvent → ℕ
  | _, [] => 0
  | s, e :: es => (if readsPast t s e then 1 else 0) +
      (feedStep store f s e).elim 0 fun s' => countReads t s' es

variable (store f) in
/-- The rows up to the row `r` that are still to be received. -/
def missing (r : AuditRow) (s : FeedState) : List AuditRow :=
  (feed store f s.log).filter fun a => s.cursor < a.key && a.key ≤ r.key

/-- Rows up to `r` are only taken from the missing ones, by moving the cursor. -/
theorem missing_step {r : AuditRow} (h : FeedInv store f s) (hfinal : Final r.performedAt s)
    {e : FeedEvent} (hstep : feedStep store f s e = some s') :
    missing store f r s' = (missing store f r s).filter fun a => s'.cursor < a.key := by
  have heff := step_effect h hstep
  rw [missing, missing, feed, feed, List.filter_filter, List.filter_filter, List.filter_filter]
  refine filter_inOrder_congr (feedInv_step s e s' h hstep).log_nodup h.log_nodup fun a => ?_
  simp only [Bool.and_eq_true, decide_eq_true_eq]
  constructor
  · rintro ⟨ha, ⟨hc, hr⟩, hp⟩
    refine ⟨?_, ⟨hc, heff.cursor_le.trans_lt hc, hr⟩, hp⟩
    rcases heff.log_of a ha with ha | ⟨tx, htx, ha⟩
    · exact ha
    · -- a row of an open transaction is past the instant of `r`
      have hlt := hfinal.2 tx htx
      rw [← h.row_start tx htx a ha] at hlt
      exact absurd (AuditRow.performedAt_le_of_key_le hr) (by omega)
  · rintro ⟨ha, ⟨hc, -, hr⟩, hp⟩
    exact ⟨heff.log_subset a ha, ⟨hc, hr⟩, hp⟩

/-- A read past the instant of a missing row takes at least one of the rows missing up to it. -/
theorem missing_read {r : AuditRow} (h : FeedInv store f s) (hr : r ∈ missing store f r s)
    {e : FeedEvent} (he : readsPast r.performedAt s e = true)
    (hstep : feedStep store f s e = some s') :
    ((missing store f r s).filter fun a => s'.cursor < a.key).length <
      (missing store f r s).length := by
  cases e with
  | read limit own =>
    obtain ⟨b, hb, rfl⟩ := h.step_read hstep
    simp only [readsPast, hb, Option.any_some, Bool.and_eq_true, decide_eq_true_eq] at he
    obtain ⟨hlimit, hrb⟩ := he
    simp only [missing, List.mem_filter, Bool.and_eq_true, decide_eq_true_eq] at hr
    obtain ⟨hfeed, hcr, -⟩ := hr
    -- the rows the page is taken from, with `r` among them
    set avail := (below store f b s.log).filter fun a => s.cursor < a.key with havail
    have hsorted : avail.Pairwise fun a b => a.key < b.key :=
      ((pairwise_feed h.log_nodup).filter _).filter _
    have hravail : r ∈ avail := by simp [havail, below, hfeed, hrb, hcr]
    obtain ⟨a, l, hcons⟩ := List.exists_cons_of_ne_nil (List.ne_nil_of_mem hravail)
    have hapage : a ∈ pageAfter AuditRow.key limit s.cursor (below store f b s.log) := by
      rw [pageAfter, ← havail, hcons]
      obtain ⟨n, rfl⟩ := Nat.exists_eq_add_of_lt hlimit
      simp
    have hasorted : (pageAfter AuditRow.key limit s.cursor (below store f b s.log)).Pairwise
        fun a b => a.key < b.key := hsorted.sublist (List.take_sublist _ _)
    have har : a.key ≤ r.key := by
      rw [hcons] at hsorted hravail
      rcases List.mem_cons.mp hravail with rfl | hmem
      · exact le_rfl
      · exact (List.rel_of_pairwise_cons hsorted hmem).le
    obtain ⟨last, hlast⟩ := Option.isSome_iff_exists.mp
      (List.getLast?_isSome.mpr (List.ne_nil_of_mem hapage))
    -- the first row available is missing, and the page takes it
    refine List.length_filter_lt_length_iff_exists.mpr ⟨a, ?_, ?_⟩
    · have hmem := (List.mem_filter.mp (List.mem_of_mem_take hapage)).1
      simp only [missing, List.mem_filter, Bool.and_eq_true, decide_eq_true_eq]
      exact ⟨(List.mem_filter.mp hmem).1, lt_of_mem_pageAfter hapage, har⟩
    · simp only [decide_eq_true_eq, not_lt, lastKey, hlast, Option.elim_some]
      exact le_getLast hasorted hapage hlast
  | _ => cases he

/-- **Enough reads receive every row**: from a state with a bound past a committed row, as many
reads past it as rows are missing up to it. -/
theorem received_of_reads {r : AuditRow} (h : FeedInv store f s)
    (hfinal : Final r.performedAt s) (hr : r ∈ feed store f s.log) {es : List FeedEvent}
    (hreads : (missing store f r s).length ≤ countReads store f r.performedAt s es)
    (hrun : run (feedStep store f) s es = some s') : r ∈ s'.received := by
  induction es generalizing s with
  | nil =>
    cases hrun
    rw [h.received_eq, List.mem_filter, decide_eq_true_eq]
    refine ⟨hr, not_lt.mp fun hlt => ?_⟩
    have hmem : r ∈ missing store f r s' := by simp [missing, hr, hlt]
    exact absurd (List.length_pos_of_mem hmem) (by simpa [countReads] using hreads)
  | cons e es ih =>
    obtain ⟨s₁, hstep, hrun⟩ := run_cons.mp hrun
    obtain ⟨h₁, hfinal₁⟩ := final_step r.performedAt s e s₁ ⟨h, hfinal⟩ hstep
    have hr₁ : r ∈ feed store f s₁.log := by
      rw [mem_feed] at hr ⊢
      exact ⟨(step_effect h hstep).log_subset r hr.1, hr.2⟩
    have hmiss := missing_step h hfinal hstep
    rw [countReads, hstep, Option.elim_some] at hreads
    have hle := List.length_filter_le (fun a => decide (s₁.cursor < a.key)) (missing store f r s)
    refine ih h₁ hfinal₁ hr₁ ?_ hrun
    rw [hmiss]
    by_cases hmem : r ∈ missing store f r s
    · split at hreads
      · rename_i he
        have := missing_read h hmem he hstep
        omega
      · omega
    · -- the row is received already, and so are all rows before it
      have hrc : r.key ≤ s.cursor := by simpa [missing, hr] using hmem
      have hnil : missing store f r s = [] := by
        refine List.filter_eq_nil_iff.mpr fun a _ ha => ?_
        simp only [Bool.and_eq_true, decide_eq_true_eq] at ha
        exact absurd (ha.2.trans hrc) (not_le.mpr ha.1)
      rw [hnil, List.filter_nil]
      exact Nat.zero_le _

/-- The bound that a capture gives is past an instant exactly if the clock less the lag, the start
of the caller and the starts of all open transactions are. -/
theorem lt_watchSafeUntil {clock lag own t : ℤ} {starts : List ℤ} :
    t < watchSafeUntil clock lag starts own ↔
      t < clock - lag ∧ t < own ∧ ∀ t' ∈ starts, t < t' := by
  unfold watchSafeUntil
  rw [lt_min_iff, lt_min_iff]
  cases hmin : starts.min? with
  | none =>
    rw [List.min?_eq_none_iff.mp hmin]
    simp [and_comm]
  | some m =>
    obtain ⟨hm, hle⟩ := List.min?_eq_some_iff.mp hmin
    rw [Option.getD_some]
    constructor
    · rintro ⟨⟨hlag, htm⟩, hown⟩
      exact ⟨hlag, hown, fun t' ht' => htm.trans_le (hle t' ht')⟩
    · rintro ⟨hlag, hown, hall⟩
      exact ⟨⟨hlag, hall m hm⟩, hown⟩

/-- A feed without filters. -/
def allRows : WatchFilter := ⟨fun _ => none, none, none, none⟩

/-- A row of the store 7, before it is written. -/
def change (userId : String) : AuditRow :=
  { userType := 3, userId := userId, userRelation := none, relation := 1, objectType := 1,
    objectId := "doc", conditionId := none, conditionContext := none, expiresAt := none,
    storeId := 7, seq := 0, action := .insert, performedAt := 0, performedBy := "app" }

/-- The transaction that starts second writes and commits first. While the first one is open, a
poll returns nothing; after it, both rows are read, one page each. -/
def overlapping : List FeedEvent :=
  [.start, .tick 1, .start, .write 1 (change "bob"), .commit 1, .tick 5, .capture 0 6, .read 10 none,
    .write 0 (change "ann"), .commit 0, .tick 5, .capture 1 11, .read 1 none, .read 1 none]

end PgAuthz
