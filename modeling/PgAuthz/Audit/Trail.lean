import PgAuthz.Feed.Audited
import PgAuthz.Store.AuditLog
import PgAuthz.Transition.Runs

/-!
# The audit trail of concurrent transactions

Transactions change tuples row by row; a trigger records each change with the start of the
transaction and a sequence number, and a commit makes the changes and their audit rows visible
together. A row that an open transaction has changed is locked for the others. The replay of
`_build_audit_snapshot` takes for each tuple the event with the greatest start, whereas the table
holds the change that was made last: the two differ once a transaction changes a tuple that a
transaction with a later start has changed before it.

## Main definitions

* `RowKey`, `RowChange`, `auditTuple`: the unique key of a tuple, a changed row and its trigger
* `TupleOp`: what a writing statement does to one row
* `TrailState`, `TrailEvent`, `trailStep`: transactions, the table and the log
* `snapshotEvents`, `buildAuditSnapshot`: `_build_audit_snapshot`
* `InStartOrder`: a commit changes no tuple that a transaction with a later start has changed

## Main results

* `trailInv_step`: what every step keeps
* `snapshot_agrees`: the snapshot is the table, where commits are in start order
-/

namespace PgAuthz

open Feed Transition

/-! ## Changed rows -/

/-- The columns of `idx_tuples_unique`; a tuple without a userset has the relation 0 there. -/
structure RowKey where
  storeId : ℕ
  userType : ℕ
  userId : String
  userRelation : ℕ
  relation : ℕ
  objectType : ℕ
  objectId : String
deriving DecidableEq, Repr

/-- The unique key of a tuple of a store. -/
def Tuple.rowKey (store : ℕ) (t : Tuple) : RowKey :=
  ⟨store, t.userType, t.userId, t.userRelation.getD 0, t.relation, t.objectType, t.objectId⟩

/-- The tuple that an audit row is about. -/
def AuditRow.rowKey (r : AuditRow) : RowKey := r.toTuple.rowKey r.storeId

/-- The rows of `authz.tuples` by their unique key. -/
abbrev Table := RowKey → Option Tuple

/-- A row that a statement has inserted, updated or deleted, with the first sequence number of its
audit rows. -/
structure RowChange where
  key : RowKey
  old : Option Tuple
  new : Option Tuple
  seq : ℤ
  performedBy : String
deriving DecidableEq, Repr

/-- A row of `tuples_audit` that records the insertion or the removal of a tuple. -/
def AuditRow.event (store : ℕ) (start : ℤ) (performedBy : String) (inserted : Bool) (t : Tuple)
    (seq : ℤ) : AuditRow :=
  { t with
    storeId := store, seq := seq, action := if inserted then .insert else .delete,
    performedAt := start, performedBy := performedBy }

/-- The trigger `_audit_tuple` in a transaction that started at `start`: an update is recorded as
the deletion of the old row and the insertion of the new one. -/
def auditTuple (start : ℤ) (c : RowChange) : List AuditRow :=
  recordChange (AuditRow.event c.key.storeId start c.performedBy) c.old c.new c.seq

/-- What a writing statement does to one row: the upsert of `write_tuple`, the batch insert of
`write_tuples`, a targeted delete, which the row policy keeps from expired rows, and the clean-up
of expired rows. -/
inductive TupleOp
  | upsert (store : ℕ) (t : Tuple)
  | regrant (store : ℕ) (t : Tuple)
  | delete (key : RowKey)
  | cleanup (key : RowKey) (grace : ℤ)
deriving DecidableEq, Repr

/-- The row that a statement is about. -/
def TupleOp.key : TupleOp → RowKey
  | upsert store t => t.rowKey store
  | regrant store t => t.rowKey store
  | delete key => key
  | cleanup key _ => key

/-- The old and the new row, unless the statement leaves the row as it is. `now` is the time of the
statement, `start` that of the transaction. -/
def TupleOp.effect (now start : ℤ) (current : Option Tuple) :
    TupleOp → Option (Option Tuple × Option Tuple)
  | upsert _ t =>
    match current with
    | none => some (none, some t)
    | some old =>
      -- an existing row, expired or not, takes the condition and the expiry of the write
      if old.conditionId ≠ t.conditionId ∨ old.conditionContext ≠ t.conditionContext ∨
          old.expiresAt ≠ t.expiresAt then
        some (some old, some { old with
          conditionId := t.conditionId, conditionContext := t.conditionContext,
          expiresAt := t.expiresAt })
      else none
  | regrant _ t =>
    match current with
    | none => some (none, some { t with
        conditionId := none, conditionContext := none, expiresAt := none })
    | some old =>
      if old.expiresAt.isSome then some (some old, some { old with expiresAt := none }) else none
  | delete _ =>
    match current with
    | none => none
    | some old => if old.visibleAt now then some (some old, none) else none
  | cleanup _ grace =>
    match current with
    | none => none
    | some old => if old.expiresAt.any (· ≤ start - grace) then some (some old, none) else none

/-! ## Transactions -/

/-- An open transaction: its start and the rows it has changed. -/
structure ChangeTx where
  start : ℤ
  changes : List RowChange

/-- The audit rows of a transaction. -/
def ChangeTx.rows (tx : ChangeTx) : List AuditRow := tx.changes.flatMap (auditTuple tx.start)

/-- The table after a list of changes. -/
def applyChanges : List RowChange → Table → Table
  | [], T => T
  | c :: cs, T => applyChanges cs (Function.update T c.key c.new)

/-- The clock, the sequence of the log, the committed table and log, and the open transactions. -/
structure TrailState where
  clock : ℤ
  nextSeq : ℤ
  table : Table
  log : List AuditRow
  opened : List ChangeTx

/-- What can happen next. A transaction is named by its place among the open ones. -/
inductive TrailEvent
  | tick (d : ℕ)
  | start
  | change (i : ℕ) (op : TupleOp) (performedBy : String)
  | rollback (i n : ℕ)
  | commit (i : ℕ)
  | abort (i : ℕ)

/-- The state before any transaction. -/
def TrailState.init (clock : ℤ) : TrailState := ⟨clock, 1, fun _ => none, [], []⟩

/-- The next state, unless the event cannot happen: a change waits while another open transaction
has changed the row, and then sees the committed row. -/
def trailStep (s : TrailState) : TrailEvent → Option TrailState
  | .tick d => some { s with clock := s.clock + d }
  | .start => some { s with opened := s.opened ++ [⟨s.clock, []⟩] }
  | .change i op performedBy => s.opened[i]?.bind fun tx =>
    if (s.opened.eraseIdx i).all fun tx' => tx'.changes.all fun c => c.key ≠ op.key then
      match op.effect s.clock tx.start (applyChanges tx.changes s.table op.key) with
      | none => some s
      | some (old, new) =>
        let c : RowChange := ⟨op.key, old, new, s.nextSeq, performedBy⟩
        some { s with
          nextSeq := s.nextSeq + (auditTuple tx.start c).length
          opened := s.opened.set i { tx with changes := tx.changes ++ [c] } }
    else none
  | .rollback i n => s.opened[i]?.map fun tx =>
    { s with opened := s.opened.set i { tx with changes := tx.changes.take n } }
  | .commit i => s.opened[i]?.map fun tx =>
    { s with
      table := applyChanges tx.changes s.table
      log := s.log ++ tx.rows
      opened := s.opened.eraseIdx i }
  | .abort i => s.opened[i]?.map fun _ => { s with opened := s.opened.eraseIdx i }

/-! ## The snapshot -/

/-- The events that `_build_audit_snapshot` selects at the instant `p_at` of a store that was
deleted at `deletedAt`, if it was. -/
def snapshotEvents (log : List AuditRow) (store : ℕ) (deletedAt : Option ℤ) (atTime : ℤ) :
    List AuditRow :=
  if deletedAt.any (· ≤ atTime) then []
  else (latest AuditRow.rowKey AuditRow.key
    (log.filter fun r => r.storeId = store && r.performedAt ≤ atTime)).filter fun r =>
      r.action = .insert && r.visibleAt atTime

/-- The rows of `_snapshot_tuples`, which has no expiry column. -/
def buildAuditSnapshot (log : List AuditRow) (store : ℕ) (deletedAt : Option ℤ) (atTime : ℤ) :
    List Tuple :=
  (snapshotEvents log store deletedAt atTime).map fun r => { r.toTuple with expiresAt := none }

/-! ## What holds of the trail -/

/-- The row that an event leaves behind. -/
def AuditRow.leaves (r : AuditRow) : Option Tuple :=
  if r.action = .insert then some r.toTuple else none

/-- A change is about one row: the old and the new tuple have its key, and there is one of them. -/
def RowChange.WellFormed (c : RowChange) : Prop :=
  (∀ t, c.old = some t → t.rowKey c.key.storeId = c.key) ∧
    (∀ t, c.new = some t → t.rowKey c.key.storeId = c.key) ∧ (c.old ≠ none ∨ c.new ≠ none)

/-- No row is changed by both transactions. -/
def Apart (tx tx' : ChangeTx) : Prop := ∀ c ∈ tx.changes, ∀ c' ∈ tx'.changes, c.key ≠ c'.key

theorem Apart.symm {tx tx' : ChangeTx} (h : Apart tx tx') : Apart tx' tx :=
  fun c hc c' hc' => (h c' hc' c hc).symm

/-- **The invariant.** A row that is changed by an open transaction is changed by no other one, and
its events in the log have smaller numbers; the log records the events of each tuple in the order of
their positions, and the table holds what the last one leaves behind. -/
structure TrailInv (s : TrailState) : Prop where
  table_key : ∀ k t, s.table k = some t → t.rowKey k.storeId = k
  wellFormed : ∀ tx ∈ s.opened, ∀ c ∈ tx.changes, c.WellFormed
  log_seq_lt : ∀ r ∈ s.log, r.seq < s.nextSeq
  tx_seq_lt : ∀ tx ∈ s.opened, ∀ r ∈ tx.rows, r.seq < s.nextSeq
  tx_order : ∀ tx ∈ s.opened, tx.rows.Pairwise fun a b => a.seq < b.seq
  log_before : ∀ tx ∈ s.opened, ∀ r ∈ s.log, ∀ r' ∈ tx.rows, r.rowKey = r'.rowKey → r.seq < r'.seq
  locks : s.opened.Pairwise Apart
  log_order : Ordered AuditRow.rowKey AuditRow.key s.log
  table_eq : ∀ k, s.table k = (lastOf AuditRow.rowKey k s.log).bind AuditRow.leaves

/-- A commit changes no tuple of which the log has an event with a later start. -/
def InStartOrder (s : TrailState) : TrailEvent → Prop
  | .commit i => ∀ tx ∈ s.opened[i]?, ∀ c ∈ tx.changes, ∀ r ∈ s.log, r.rowKey = c.key →
      r.performedAt ≤ tx.start
  | _ => True

instance (s : TrailState) : (e : TrailEvent) → Decidable (InStartOrder s e)
  | .commit i => inferInstanceAs (Decidable (∀ tx ∈ s.opened[i]?, ∀ c ∈ tx.changes, ∀ r ∈ s.log,
      r.rowKey = c.key → r.performedAt ≤ tx.start))
  | .tick _ => .isTrue trivial
  | .start => .isTrue trivial
  | .change _ _ _ => .isTrue trivial
  | .rollback _ _ => .isTrue trivial
  | .abort _ => .isTrue trivial

variable {s s' : TrailState}

/-- The audit rows of a change: they carry its key and the start of the transaction, their numbers
are drawn in order, and the last one leaves the new row behind. -/
theorem auditTuple_spec {c : RowChange} (hc : c.WellFormed) (start : ℤ) :
    (∀ r ∈ auditTuple start c, r.rowKey = c.key ∧ r.performedAt = start ∧ c.seq ≤ r.seq ∧
      r.seq < c.seq + (auditTuple start c).length) ∧
    ((auditTuple start c).Pairwise fun a b => a.seq < b.seq) ∧
    ∃ r, (auditTuple start c).getLast? = some r ∧ r.leaves = c.new := by
  obtain ⟨key, old, new, seq, performedBy⟩ := c
  obtain ⟨hold, hnew, hsome⟩ := hc
  dsimp only at hold hnew hsome
  cases old with
  | none =>
    cases new with
    | none => simp at hsome
    | some n => simp [auditTuple, recordChange, AuditRow.event, AuditRow.rowKey, AuditRow.leaves, hnew n rfl]
  | some o =>
    cases new with
    | none => simp [auditTuple, recordChange, AuditRow.event, AuditRow.rowKey, AuditRow.leaves, hold o rfl]
    | some n =>
      simp [auditTuple, recordChange, AuditRow.event, AuditRow.rowKey, AuditRow.leaves, hold o rfl, hnew n rfl]

theorem rowKey_of_mem_rows {tx : ChangeTx} (htx : ∀ c ∈ tx.changes, c.WellFormed) {r : AuditRow}
    (hr : r ∈ tx.rows) : r.performedAt = tx.start ∧ ∃ c ∈ tx.changes, r.rowKey = c.key := by
  obtain ⟨c, hc, hr⟩ := List.mem_flatMap.mp hr
  obtain ⟨hkey, hstart, -⟩ := (auditTuple_spec (htx c hc) tx.start).1 r hr
  exact ⟨hstart, c, hc, hkey⟩

/-- A table with rows under their keys keeps them there. -/
theorem applyChanges_key {changes : List RowChange} (hc : ∀ c ∈ changes, c.WellFormed) {T : Table}
    (hT : ∀ k t, T k = some t → t.rowKey k.storeId = k) :
    ∀ k t, applyChanges changes T k = some t → t.rowKey k.storeId = k := by
  induction changes generalizing T with
  | nil => exact hT
  | cons c cs ih =>
    refine ih (fun c' hc' => hc c' (List.mem_cons_of_mem c hc')) fun k t hk => ?_
    by_cases heq : k = c.key
    · subst heq
      rw [Function.update_self] at hk
      exact (hc c List.mem_cons_self).2.1 t hk
    · rw [Function.update_of_ne heq] at hk
      exact hT k t hk

/-- **The changes of a transaction leave behind what its last audit row of each tuple does.** -/
theorem applyChanges_eq {changes : List RowChange} (hc : ∀ c ∈ changes, c.WellFormed) (start : ℤ)
    (T : Table) (k : RowKey) :
    applyChanges changes T k =
      (lastOf AuditRow.rowKey k (changes.flatMap (auditTuple start))).elim (T k) AuditRow.leaves := by
  induction changes generalizing T with
  | nil => rfl
  | cons c cs ih =>
    obtain ⟨hrows, -, last, hlast, hleaves⟩ := auditTuple_spec (hc c List.mem_cons_self) start
    rw [applyChanges, ih fun c' hc' => hc c' (List.mem_cons_of_mem c hc'), List.flatMap_cons,
      lastOf_append]
    cases lastOf AuditRow.rowKey k (cs.flatMap (auditTuple start)) with
    | some r => rfl
    | none =>
      rw [Option.none_or, Option.elim_none]
      -- what remains is the last event of the first change
      by_cases hk : k = c.key
      · have hfilter : ((auditTuple start c).filter fun r => r.rowKey = k) = auditTuple start c :=
          List.filter_eq_self.mpr fun r hr => by simp [(hrows r hr).1, hk]
        rw [lastOf, hfilter, hlast, Option.elim_some, hleaves, hk, Function.update_self]
      · have hnone : lastOf AuditRow.rowKey k (auditTuple start c) = none :=
          lastOf_eq_none.mpr fun r hr => by simpa [(hrows r hr).1] using Ne.symm hk
        rw [hnone, Option.elim_none, Function.update_of_ne hk]

/-! ## What the steps keep -/

theorem trailInv_init (clock : ℤ) : TrailInv (TrailState.init clock) where
  table_key := by simp [TrailState.init]
  wellFormed := by simp [TrailState.init]
  log_seq_lt := by simp [TrailState.init]
  tx_seq_lt := by simp [TrailState.init]
  tx_order := by simp [TrailState.init]
  log_before := by simp [TrailState.init]
  locks := by simp [TrailState.init]
  log_order := List.Pairwise.nil
  table_eq := fun k => rfl

/-- An open transaction shares no row with another one. -/
theorem TrailInv.apart (h : TrailInv s) {i : ℕ} {tx : ChangeTx} (htx : s.opened[i]? = some tx) :
    ∀ tx' ∈ s.opened.eraseIdx i, Apart tx tx' := by
  obtain ⟨l₁, l₂, hopened, -, herase⟩ := split_of_getElem? htx
  have hlocks := h.locks
  rw [hopened, List.pairwise_middle Apart.symm, List.pairwise_cons] at hlocks
  rw [herase]
  exact hlocks.1

/-- A transaction is replaced by one with other changes. -/
theorem TrailInv.replace (h : TrailInv s) {i : ℕ} {tx tx' : ChangeTx} (htx : s.opened[i]? = some tx)
    {nextSeq : ℤ} (hseq : s.nextSeq ≤ nextSeq) (hwf : ∀ c ∈ tx'.changes, c.WellFormed)
    (hlt : ∀ r ∈ tx'.rows, r.seq < nextSeq) (horder : tx'.rows.Pairwise fun a b => a.seq < b.seq)
    (hbefore : ∀ r ∈ s.log, ∀ r' ∈ tx'.rows, r.rowKey = r'.rowKey → r.seq < r'.seq)
    (hlock : ∀ tx'' ∈ s.opened.eraseIdx i, Apart tx' tx'') :
    TrailInv { s with nextSeq := nextSeq, opened := s.opened.set i tx' } := by
  obtain ⟨l₁, l₂, hopened, hset, herase⟩ := split_of_getElem? htx
  -- what holds of all old transactions and of the new one
  have hcases : ∀ {P : ChangeTx → Prop}, (∀ tx ∈ s.opened, P tx) → P tx' →
      ∀ tx'' ∈ s.opened.set i tx', P tx'' := by
    intro P hold hnew tx'' htx''
    rcases List.mem_or_eq_of_mem_set htx'' with hmem | rfl
    · exact hold tx'' hmem
    · exact hnew
  refine
    { h with
      wellFormed := hcases h.wellFormed hwf
      log_seq_lt := fun r hr => (h.log_seq_lt r hr).trans_le hseq
      tx_seq_lt := hcases (fun tx htx r hr => (h.tx_seq_lt tx htx r hr).trans_le hseq) hlt
      tx_order := hcases h.tx_order horder
      log_before := hcases h.log_before hbefore
      locks := ?_ }
  have hlocks := h.locks
  rw [hopened, List.pairwise_middle Apart.symm, List.pairwise_cons] at hlocks
  rw [herase] at hlock
  show (s.opened.set i tx').Pairwise Apart
  rw [hset, List.pairwise_middle Apart.symm, List.pairwise_cons]
  exact ⟨hlock, hlocks.2⟩

/-- A statement keeps the key of the row. -/
theorem effect_wellFormed {op : TupleOp} {now start : ℤ} {current old new : Option Tuple}
    (hcur : ∀ t, current = some t → t.rowKey op.key.storeId = op.key)
    (heff : op.effect now start current = some (old, new)) (seq : ℤ) (performedBy : String) :
    RowChange.WellFormed ⟨op.key, old, new, seq, performedBy⟩ := by
  -- the row is inserted, updated under its key, or deleted
  have hinsert : ∀ t : Tuple, t.rowKey op.key.storeId = op.key → old = none → new = some t →
      RowChange.WellFormed ⟨op.key, old, new, seq, performedBy⟩ := by
    rintro t ht rfl rfl
    exact ⟨by simp, by simpa using ht, by simp⟩
  have hexists : ∀ t, current = some t → old = some t →
      (∀ t', new = some t' → t'.rowKey op.key.storeId = t.rowKey op.key.storeId) →
      RowChange.WellFormed ⟨op.key, old, new, seq, performedBy⟩ := by
    rintro t ht rfl hnew
    exact ⟨by simpa using hcur t ht, fun t' ht' => (hnew t' ht').trans (hcur t ht), by simp⟩
  cases op with
  | upsert store t =>
    cases current with
    | none =>
      cases heff
      exact hinsert t rfl rfl rfl
    | some o =>
      simp only [TupleOp.effect] at heff
      split at heff
      · cases heff
        refine hexists o rfl rfl fun t' ht' => ?_
        cases ht'
        rfl
      · cases heff
  | regrant store t =>
    cases current with
    | none =>
      cases heff
      exact hinsert { t with conditionId := none, conditionContext := none, expiresAt := none } rfl rfl
        rfl
    | some o =>
      simp only [TupleOp.effect] at heff
      split at heff
      · cases heff
        refine hexists o rfl rfl fun t' ht' => ?_
        cases ht'
        rfl
      · cases heff
  | delete key =>
    cases current with
    | none => cases heff
    | some o =>
      simp only [TupleOp.effect] at heff
      split at heff
      · cases heff
        exact hexists o rfl rfl (by simp)
      · cases heff
  | cleanup key grace =>
    cases current with
    | none => cases heff
    | some o =>
      simp only [TupleOp.effect] at heff
      split at heff
      · cases heff
        exact hexists o rfl rfl (by simp)
      · cases heff

theorem TrailInv.change (h : TrailInv s) {i : ℕ} {tx : ChangeTx} (htx : s.opened[i]? = some tx)
    {op : TupleOp} {performedBy : String} {old new : Option Tuple}
    (hfree : ∀ tx' ∈ s.opened.eraseIdx i, ∀ c ∈ tx'.changes, c.key ≠ op.key)
    (heff : op.effect s.clock tx.start (applyChanges tx.changes s.table op.key) = some (old, new)) :
    TrailInv
      { s with
        nextSeq := s.nextSeq + (auditTuple tx.start
          ⟨op.key, old, new, s.nextSeq, performedBy⟩).length
        opened := s.opened.set i
          { tx with changes := tx.changes ++ [⟨op.key, old, new, s.nextSeq, performedBy⟩] } } := by
  set c : RowChange := ⟨op.key, old, new, s.nextSeq, performedBy⟩ with hc
  have hmem : tx ∈ s.opened := List.mem_of_getElem? htx
  have hwf : c.WellFormed :=
    effect_wellFormed (applyChanges_key (h.wellFormed tx hmem) h.table_key op.key) heff _ _
  obtain ⟨hrows, horder, -⟩ := auditTuple_spec hwf tx.start
  have hsplit : ChangeTx.rows { tx with changes := tx.changes ++ [c] } =
      tx.rows ++ auditTuple tx.start c := by simp [ChangeTx.rows]
  have hle : s.nextSeq ≤ s.nextSeq + (auditTuple tx.start c).length := by omega
  refine h.replace htx hle ?_ ?_ ?_ ?_ ?_
  · intro c' hc'
    rcases List.mem_append.mp hc' with hc' | hc'
    · exact h.wellFormed tx hmem c' hc'
    · rw [List.mem_singleton.mp hc']
      exact hwf
  · rw [hsplit]
    intro r hr
    rcases List.mem_append.mp hr with hr | hr
    · exact (h.tx_seq_lt tx hmem r hr).trans_le hle
    · exact (hrows r hr).2.2.2
  · -- the numbers of the new rows were not drawn before
    rw [hsplit, List.pairwise_append]
    exact ⟨h.tx_order tx hmem, horder, fun r hr r' hr' =>
      (h.tx_seq_lt tx hmem r hr).trans_le (hrows r' hr').2.2.1⟩
  · rw [hsplit]
    intro r hr r' hr' hkey
    rcases List.mem_append.mp hr' with hr' | hr'
    · exact h.log_before tx hmem r hr r' hr' hkey
    · exact (h.log_seq_lt r hr).trans_le (hrows r' hr').2.2.1
  · -- no other open transaction has changed the row
    intro tx' htx' c₁ hc₁ c₂ hc₂
    rcases List.mem_append.mp hc₁ with hc₁ | hc₁
    · exact h.apart htx tx' htx' c₁ hc₁ c₂ hc₂
    · rw [List.mem_singleton.mp hc₁]
      exact (hfree tx' htx' c₂ hc₂).symm

theorem TrailInv.rollback (h : TrailInv s) {i : ℕ} {tx : ChangeTx} (htx : s.opened[i]? = some tx)
    (n : ℕ) : TrailInv
      { s with opened := s.opened.set i { tx with changes := tx.changes.take n } } := by
  have hmem : tx ∈ s.opened := List.mem_of_getElem? htx
  have hsub : (ChangeTx.rows { tx with changes := tx.changes.take n }).Sublist tx.rows :=
    (List.take_sublist n tx.changes).flatMap _
  refine h.replace htx le_rfl ?_ ?_ ?_ ?_ ?_
  · exact fun c hc => h.wellFormed tx hmem c (List.mem_of_mem_take hc)
  · exact fun r hr => h.tx_seq_lt tx hmem r (hsub.subset hr)
  · exact (h.tx_order tx hmem).sublist hsub
  · exact fun r hr r' hr' => h.log_before tx hmem r hr r' (hsub.subset hr')
  · exact fun tx' htx' c hc => h.apart htx tx' htx' c (List.mem_of_mem_take hc)

theorem TrailInv.abort (h : TrailInv s) (i : ℕ) :
    TrailInv { s with opened := s.opened.eraseIdx i } := by
  have hold : ∀ tx ∈ s.opened.eraseIdx i, tx ∈ s.opened := fun _ => List.mem_of_mem_eraseIdx
  exact
    { h with
      wellFormed := fun tx htx => h.wellFormed tx (hold tx htx)
      tx_seq_lt := fun tx htx => h.tx_seq_lt tx (hold tx htx)
      tx_order := fun tx htx => h.tx_order tx (hold tx htx)
      log_before := fun tx htx => h.log_before tx (hold tx htx)
      locks := h.locks.sublist (List.eraseIdx_sublist _ _) }

/-- A commit appends events that come after those of their tuples, both in their numbers, by the
locks, and in their starts, by the condition. -/
theorem TrailInv.commit (h : TrailInv s) {i : ℕ} {tx : ChangeTx} (htx : s.opened[i]? = some tx)
    (hok : InStartOrder s (.commit i)) : TrailInv
      { s with
        table := applyChanges tx.changes s.table
        log := s.log ++ tx.rows
        opened := s.opened.eraseIdx i } := by
  have hmem : tx ∈ s.opened := List.mem_of_getElem? htx
  have hwf := h.wellFormed tx hmem
  have hold : ∀ tx ∈ s.opened.eraseIdx i, tx ∈ s.opened := fun _ => List.mem_of_mem_eraseIdx
  have habort := h.abort i
  refine
    { habort with
      table_key := applyChanges_key hwf h.table_key
      log_seq_lt := ?_
      log_before := ?_
      log_order := ?_
      table_eq := ?_ }
  · intro r hr
    rcases List.mem_append.mp hr with hr | hr
    · exact h.log_seq_lt r hr
    · exact h.tx_seq_lt tx hmem r hr
  · intro tx' htx' r hr r' hr' hkey
    rcases List.mem_append.mp hr with hr | hr
    · exact h.log_before tx' (hold tx' htx') r hr r' hr' hkey
    · -- the two transactions would have changed the same row
      obtain ⟨-, c, hc, hck⟩ := rowKey_of_mem_rows hwf hr
      obtain ⟨-, c', hc', hck'⟩ := rowKey_of_mem_rows (h.wellFormed tx' (hold tx' htx')) hr'
      exact absurd (hck.symm.trans (hkey.trans hck')) (h.apart htx tx' htx' c hc c' hc')
  · -- the rows of a transaction have one time, and their numbers put them in order
    refine List.pairwise_append.mpr ⟨h.log_order, ?_, fun r hr r' hr' hkey => ?_⟩
    · refine (h.tx_order tx hmem).imp_of_mem fun hr hr' hlt _ => ?_
      have hat := (rowKey_of_mem_rows hwf hr).1
      have hat' := (rowKey_of_mem_rows hwf hr').1
      exact AuditRow.key_lt_iff.mpr (.inr ⟨hat.trans hat'.symm, hlt⟩)
    · obtain ⟨hat, c, hc, hck⟩ := rowKey_of_mem_rows hwf hr'
      have hle : r.performedAt ≤ r'.performedAt := hat ▸ hok tx htx c hc r hr (hkey.trans hck)
      rw [AuditRow.key_lt_iff]
      rcases hle.lt_or_eq with hlt | heq
      · exact .inl hlt
      · exact .inr ⟨heq, h.log_before tx hmem r hr r' hr' hkey⟩
  · -- the table after the commit is what the last row of each key leaves
    intro k
    show applyChanges tx.changes s.table k = (lastOf AuditRow.rowKey k (s.log ++ tx.rows)).bind _
    rw [applyChanges_eq hwf tx.start, lastOf_append, h.table_eq k]
    show (lastOf AuditRow.rowKey k tx.rows).elim _ _ = _
    cases lastOf AuditRow.rowKey k tx.rows with
    | none => rfl
    | some r => rfl

/-- **Every step whose commit is in start order keeps the invariant.** -/
theorem trailInv_step (e : TrailEvent) (h : TrailInv s) (hok : InStartOrder s e)
    (hstep : trailStep s e = some s') : TrailInv s' := by
  cases e with
  | tick d =>
    cases hstep
    exact { h with }
  | start =>
    cases hstep
    have hcases : ∀ {P : ChangeTx → Prop}, (∀ tx ∈ s.opened, P tx) → P ⟨s.clock, []⟩ →
        ∀ tx ∈ s.opened ++ [⟨s.clock, []⟩], P tx := by
      intro P hold hnew tx htx
      rcases List.mem_append.mp htx with htx | htx
      · exact hold tx htx
      · rw [List.mem_singleton.mp htx]
        exact hnew
    exact
      { h with
        wellFormed := hcases h.wellFormed (by simp)
        tx_seq_lt := hcases h.tx_seq_lt (by simp [ChangeTx.rows])
        tx_order := hcases h.tx_order (by simp [ChangeTx.rows])
        log_before := hcases h.log_before (by simp [ChangeTx.rows])
        locks := List.pairwise_append.mpr ⟨h.locks, by simp, by simp [Apart]⟩ }
  | change i op performedBy =>
    obtain ⟨tx, htx, hstep⟩ := Option.bind_eq_some_iff.mp hstep
    split at hstep
    · rename_i hfree
      split at hstep
      · cases hstep
        exact h
      · rename_i old new heff
        cases hstep
        refine h.change htx (fun tx' htx' c hc => ?_) heff
        have := List.all_eq_true.mp (List.all_eq_true.mp hfree tx' htx') c hc
        simpa using this
    · cases hstep
  | rollback i n =>
    obtain ⟨tx, htx, rfl⟩ := Option.map_eq_some_iff.mp hstep
    exact h.rollback htx n
  | commit i =>
    obtain ⟨tx, htx, rfl⟩ := Option.map_eq_some_iff.mp hstep
    exact h.commit htx hok
  | abort i =>
    obtain ⟨tx, htx, rfl⟩ := Option.map_eq_some_iff.mp hstep
    exact h.abort i

/-! ## The snapshot against the table -/

/-- The events of a store up to an instant that is not before any of them. -/
theorem lastOf_upTo {log : List AuditRow} {atTime : ℤ} (hat : ∀ r ∈ log, r.performedAt ≤ atTime)
    (k : RowKey) :
    lastOf AuditRow.rowKey k
        (log.filter fun r => r.storeId = k.storeId && r.performedAt ≤ atTime) =
      lastOf AuditRow.rowKey k log := by
  unfold lastOf
  rw [List.filter_filter]
  congr 1
  refine List.filter_congr fun r hr => ?_
  by_cases hk : r.rowKey = k
  · subst hk
    simp [hat r hr, AuditRow.rowKey, Tuple.rowKey]
  · simp [hk]

/-- **Time travel agrees with the table.** In every run whose commits change no tuple with an event
of a later start, at any instant that is not before an event of the log: the snapshot holds exactly
the live tuples of the store that have not expired, with their conditions and expiries, and the
event that the replay takes last of each tuple is the one whose effect is in the table. -/
theorem snapshot_agrees (clock : ℤ) (store : ℕ) {es : List TrailEvent} {atTime : ℤ}
    (hok : Along trailStep InStartOrder (TrailState.init clock) es)
    (hrun : run trailStep (TrailState.init clock) es = some s)
    (hat : ∀ r ∈ s.log, r.performedAt ≤ atTime) :
    (∀ t, t ∈ (snapshotEvents s.log store none atTime).map AuditRow.toTuple ↔
      ∃ k, k.storeId = store ∧ s.table k = some t ∧ t.visibleAt atTime = true) ∧
    ∀ r ∈ latest AuditRow.rowKey AuditRow.key s.log, s.table r.rowKey = r.leaves := by
  have h : TrailInv s :=
    hok.run (fun s e s' h hok hstep => trailInv_step e h hok hstep) (trailInv_init clock) hrun
  refine ⟨fun t => ?_, fun r hr => ?_⟩
  · -- the events that are selected are the last ones that insert an unexpired tuple
    have hselect : ∀ r, r ∈ snapshotEvents s.log store none atTime ↔
        (r.storeId = store ∧ lastOf AuditRow.rowKey r.rowKey s.log = some r) ∧
          r.action = .insert ∧ r.visibleAt atTime = true := by
      intro r
      have hordered : Ordered AuditRow.rowKey AuditRow.key
          (s.log.filter fun r => r.storeId = store && r.performedAt ≤ atTime) :=
        List.Pairwise.filter _ h.log_order
      -- the latest event of a row of the store is the last one in the log
      have hlatest : r ∈ latest AuditRow.rowKey AuditRow.key
            (s.log.filter fun r => r.storeId = store && r.performedAt ≤ atTime) ↔
          r.storeId = store ∧ lastOf AuditRow.rowKey r.rowKey s.log = some r := by
        rw [mem_latest_iff hordered]
        constructor
        · intro hlast
          have hstore : r.storeId = store := by
            have := (List.mem_filter.mp (lastOf_eq_some hlast).1).2
            simp only [Bool.and_eq_true, decide_eq_true_eq] at this
            exact this.1
          subst hstore
          exact ⟨rfl, (lastOf_upTo hat r.rowKey).symm.trans hlast⟩
        · rintro ⟨rfl, hlast⟩
          exact (lastOf_upTo hat r.rowKey).trans hlast
      rw [snapshotEvents, Option.any_none, if_neg Bool.false_ne_true, List.mem_filter, hlatest,
        Bool.and_eq_true, decide_eq_true_eq]
    rw [List.mem_map]
    constructor
    · rintro ⟨r, hr, rfl⟩
      obtain ⟨⟨hstore, hlast⟩, hinsert, hvis⟩ := (hselect r).mp hr
      refine ⟨r.rowKey, hstore, ?_, hvis⟩
      rw [h.table_eq, hlast, Option.bind_some, AuditRow.leaves, if_pos hinsert]
    · rintro ⟨k, hstore, htable, hvis⟩
      rw [h.table_eq] at htable
      obtain ⟨r, hlast, hleaves⟩ := Option.bind_eq_some_iff.mp htable
      obtain ⟨-, rfl⟩ := lastOf_eq_some hlast
      unfold AuditRow.leaves at hleaves
      split at hleaves
      · rename_i hinsert
        cases hleaves
        exact ⟨r, (hselect r).mpr ⟨⟨hstore, hlast⟩, hinsert, hvis⟩, rfl⟩
      · cases hleaves
  · rw [h.table_eq, (mem_latest_iff h.log_order).mp hr, Option.bind_some]

/-- A grant of a document, until the instant `expiresAt` if it is given. -/
def grantDoc (expiresAt : Option ℤ) : Tuple :=
  ⟨3, "ann", none, 1, 1, "doc", none, none, expiresAt⟩

/-- A grant that is renewed by a second transaction is found with its new expiry. -/
theorem snapshot_agrees_renewed :
    ∃ s, run trailStep (TrailState.init 1) [.start, .change 0 (.upsert 7 (grantDoc (some 5))) "app",
        .commit 0, .tick 8, .start, .change 0 (.upsert 7 (grantDoc (some 20))) "app", .commit 0] =
        some s ∧
      ∃ k : RowKey, k.storeId = 7 ∧ s.table k = some (grantDoc (some 20)) ∧
        (grantDoc (some 20)).visibleAt 10 = true := by
  set es : List TrailEvent := [.start, .change 0 (.upsert 7 (grantDoc (some 5))) "app", .commit 0,
    .tick 8, .start, .change 0 (.upsert 7 (grantDoc (some 20))) "app", .commit 0] with hes
  have hok : Along trailStep InStartOrder (TrailState.init 1) es := by decide +kernel
  have hlog : (run trailStep (TrailState.init 1) es).map (fun s =>
      (decide (∀ r ∈ s.log, r.performedAt ≤ 10),
        (snapshotEvents s.log 7 none 10).map AuditRow.toTuple)) =
      some (true, [grantDoc (some 20)]) := by decide +kernel
  obtain ⟨s, hs, heq⟩ := Option.map_eq_some_iff.mp hlog
  obtain ⟨hat, hsnap⟩ := Prod.mk.inj heq
  refine ⟨s, hs, ((snapshot_agrees 1 7 hok hs (of_decide_eq_true hat)).1 _).mp ?_⟩
  rw [hsnap]
  simp

/-- A transaction that starts first deletes a grant that another one has made and committed in the
meantime. -/
def lateDelete : List TrailEvent :=
  [.start, .tick 1, .start, .change 1 (.upsert 7 (grantDoc none)) "app", .commit 1,
    .change 0 (.delete ((grantDoc none).rowKey 7)) "app", .commit 0]

/-- After the late deletion, all transactions are committed and the grant is gone, but the snapshot
at every later instant holds it: its event has the later start. -/
theorem snapshot_keeps_deleted_tuple :
    ∃ s, run trailStep (TrailState.init 1) lateDelete = some s ∧ s.opened = [] ∧
      (∀ r ∈ s.log, r.performedAt ≤ 10) ∧
      grantDoc none ∈ (snapshotEvents s.log 7 none 10).map AuditRow.toTuple ∧
      ¬ ∃ k : RowKey, k.storeId = 7 ∧ s.table k = some (grantDoc none) ∧
        (grantDoc none).visibleAt 10 = true := by
  have hsnap : (run trailStep (TrailState.init 1) lateDelete).map (fun s =>
      (s.opened.isEmpty, decide (∀ r ∈ s.log, r.performedAt ≤ 10),
        (snapshotEvents s.log 7 none 10).map AuditRow.toTuple)) =
      some (true, true, [grantDoc none]) := by decide +kernel
  -- the table after the insertion and the deletion of the row
  have htable : (run trailStep (TrailState.init 1) lateDelete).map TrailState.table =
      some (Function.update (Function.update (fun _ => none) ((grantDoc none).rowKey 7)
        (some (grantDoc none))) ((grantDoc none).rowKey 7) none) := rfl
  obtain ⟨s, hs, heq⟩ := Option.map_eq_some_iff.mp hsnap
  obtain ⟨hopened, hrest⟩ := Prod.mk.inj heq
  obtain ⟨hat, hevents⟩ := Prod.mk.inj hrest
  refine ⟨s, hs, List.isEmpty_iff.mp hopened, of_decide_eq_true hat, by rw [hevents]; simp, ?_⟩
  rintro ⟨k, -, hk, -⟩
  rw [hs, Option.map_some, Option.some.injEq] at htable
  rw [htable, Function.update_idem] at hk
  by_cases heq : k = (grantDoc none).rowKey 7
  · rw [heq, Function.update_self] at hk
    cases hk
  · rw [Function.update_of_ne heq] at hk
    cases hk

end PgAuthz
