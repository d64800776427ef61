import PgAuthz.Writes.Statements

/-!
# The arithmetic of floors

`_check_relation_floor` decides a batch before it is applied, from three counts under the lock of an
object: the active rows, those of them that the batch deletes, and the rows that its writes add. The
counts make up the number of rows after the batch but for two things. A wildcard is counted among the
active and the deleted rows, and not among the added ones; and a write is counted whether or not its row
is still active when it is there.

## Main definitions

* `BatchWrite`, `afterBatch`: the writes of a batch, and the tables after its deletes and writes
* `Loses`: the batch deletes an active row of the pair
* `refusesFloors`: `_check_relation_floor` refuses the batch
* `BelowFloor`: a pair that loses a row ends below its floor
* `newWildcards`, `deadWrites`: what the counts miss, and what they count too much

## Main results

* `card_after`: the counts against the rows after the batch
* `refusesFloors_iff`: when the batch is refused
* `floors_exact_iff`: when it is refused exactly if a pair ends below its floor
-/

namespace PgAuthz.Paths

/-! ## Batches -/

/-- A write of a batch as it is applied: a single `write_tuple`, or a row of the insert of
`write_tuples`, which has no condition and no expiry. -/
inductive BatchWrite
  | single (t : Tuple)
  | plain (t : Tuple)
deriving DecidableEq, Repr

/-- The row that a write is about. -/
def BatchWrite.key (store : ℕ) : BatchWrite → RowKey
  | single t => t.rowKey store
  | plain t => t.rowKey store

/-- The statement of a write. -/
def BatchWrite.op (store : ℕ) : BatchWrite → TupleOp
  | single t => .upsert store t
  | plain t => .regrant store t

@[simp]
theorem BatchWrite.op_key (store : ℕ) (w : BatchWrite) : (w.op store).key = w.key store := by
  cases w <;> rfl

/-- The tables after a statement about one row. -/
def Db.perform (d : Db) (now : ℤ) (op : TupleOp) : Db :=
  match rowChange d now op with
  | none => d
  | some ch => d.apply ch

/-- The tables after statements. -/
def Db.performAll (now : ℤ) : List TupleOp → Db → Db
  | [], d => d
  | op :: ops, d => Db.performAll now ops (d.perform now op)

/-- A batch for one store: its deletes and its writes. -/
structure FloorBatch where
  now : ℤ
  store : ℕ
  deletes : List Tuple
  writes : List BatchWrite

variable (d : Db) (b : FloorBatch)

/-- The rows to be deleted. -/
def FloorBatch.deleteKeys : List RowKey := b.deletes.map (Tuple.rowKey b.store)

/-- The rows to be written. -/
def FloorBatch.writeKeys : List RowKey := b.writes.map (BatchWrite.key b.store)

/-- The tables after the deletes. -/
def afterDeletes : Db := d.performAll b.now (b.deleteKeys.map TupleOp.delete)

/-- The tables after the deletes and then the writes. -/
def afterBatch : Db := (afterDeletes d b).performAll b.now (b.writes.map (BatchWrite.op b.store))

/-- The batch deletes an active row of the pair. -/
def Loses (p : Pair) : Prop := ∃ k ∈ b.deleteKeys, pairOf k = p ∧ d.active b.now k = true

/-- The pair has the floor `m`. -/
def Floored (p : Pair) (m : ℕ) : Prop := p.storeId = b.store ∧ d.minDirect p.key = some m

/-- `_check_relation_floor` refuses the batch: one of the floored pairs that it deletes from does not
keep its floor. -/
def refusesFloors : Bool :=
  (flooredPairs d b.store b.deleteKeys).any fun p =>
    !floorKept d b.now p b.deleteKeys b.writeKeys

/-- A pair that loses an active row ends with fewer active rows than its floor. -/
def BelowFloor : Prop :=
  ∃ p m, Floored d b p m ∧ Loses d b p ∧ (holders (afterBatch d b) p b.now).card < m

/-- The wildcards that the batch adds to a pair. -/
def newWildcards (p : Pair) : Finset RowKey :=
  (b.writeKeys.filter fun k => pairOf k = p && k.userId = wildcard &&
    !(d.active b.now k && k ∉ b.deleteKeys)).toFinset

/-- The written rows of a pair that are not active after the batch. -/
def deadWrites (p : Pair) : Finset RowKey :=
  (b.writeKeys.filter fun k => pairOf k = p && !(afterBatch d b).active b.now k).toFinset

/-! ## The rows after a batch -/

section Rows

variable {d : Db} {b : FloorBatch}

/-- A statement leaves the other rows. -/
theorem active_perform_of_ne {now : ℤ} {op : TupleOp} {k : RowKey} (h : op.key ≠ k) :
    (d.perform now op).active now k = d.active now k := by
  unfold Db.perform
  cases hch : rowChange d now op with
  | none => rfl
  | some ch =>
    obtain ⟨e, -, rfl⟩ := Option.map_eq_some_iff.mp hch
    rw [Db.active, Db.active, lookup_apply, DbChange.rowOf, if_neg h]
    rfl

theorem active_performAll_of_ne {now : ℤ} {ops : List TupleOp} {k : RowKey}
    (h : ∀ op ∈ ops, op.key ≠ k) : (d.performAll now ops).active now k = d.active now k := by
  induction ops generalizing d with
  | nil => rfl
  | cons op ops ih =>
    rw [Db.performAll, ih fun op' hop => h op' (List.mem_cons_of_mem op hop)]
    exact active_perform_of_ne (h op List.mem_cons_self)

/-- A deleted row is not active: it was not there, it had expired, or it is gone. -/
theorem active_perform_delete (now : ℤ) (k : RowKey) :
    (d.perform now (.delete k)).active now k = false := by
  unfold Db.perform
  cases hrow : d.rows.lookup k with
  | none =>
    have hch : rowChange d now (.delete k) = none := by
      simp [rowChange, TupleOp.key, TupleOp.effect, hrow]
    rw [hch, Db.active, hrow]
    rfl
  | some t =>
    by_cases hvis : t.visibleAt now = true
    · have hch : rowChange d now (.delete k) = some (.row k none) := by
        simp [rowChange, TupleOp.key, TupleOp.effect, hrow, hvis]
      simp [hch, Db.active, lookup_apply, DbChange.rowOf]
    · have hch : rowChange d now (.delete k) = none := by
        simp [rowChange, TupleOp.key, TupleOp.effect, hrow, hvis]
      rw [hch, Db.active, hrow]
      simpa using hvis

theorem active_perform_delete_of_ne {now : ℤ} {k k' : RowKey} (h : k' ≠ k) :
    (d.perform now (.delete k')).active now k = d.active now k :=
  active_perform_of_ne h

/-- **After the deletes** the rows that were active and are not deleted are active. -/
theorem active_afterDeletes (k : RowKey) :
    (afterDeletes d b).active b.now k = (d.active b.now k && !decide (k ∈ b.deleteKeys)) := by
  unfold afterDeletes
  induction b.deleteKeys generalizing d with
  | nil => simp [Db.performAll]
  | cons k' ks ih =>
    rw [List.map_cons, Db.performAll, ih]
    by_cases hk : k' = k
    · subst hk
      rw [active_perform_delete]
      simp
    · rw [active_perform_delete_of_ne hk]
      simp [Ne.symm hk]

/-- A row that is not written is as the deletes left it. -/
theorem active_afterBatch_of_not_mem {k : RowKey} (h : k ∉ b.writeKeys) :
    (afterBatch d b).active b.now k = (afterDeletes d b).active b.now k := by
  apply active_performAll_of_ne
  intro op hop hk
  obtain ⟨w, hw, rfl⟩ := List.mem_map.mp hop
  apply h
  exact List.mem_map.mpr ⟨w, hw, by rw [← hk, BatchWrite.op_key]⟩

end Rows

/-! ## The counts -/

section Counts

variable {d : Db} {b : FloorBatch} {p : Pair}

/-- The rows that are left of a pair. -/
def leftRows (d : Db) (b : FloorBatch) (p : Pair) : Finset RowKey :=
  (holders d p b.now).filter (· ∉ b.deleteKeys)

/-- The rows of a pair that are written. -/
def writtenRows (b : FloorBatch) (p : Pair) : Finset RowKey :=
  (b.writeKeys.filter fun k => pairOf k = p).toFinset

theorem mem_leftRows {k : RowKey} :
    k ∈ leftRows d b p ↔ pairOf k = p ∧ d.active b.now k = true ∧ k ∉ b.deleteKeys := by
  rw [leftRows, Finset.mem_filter, mem_holders, and_assoc]

theorem mem_writtenRows {k : RowKey} : k ∈ writtenRows b p ↔ k ∈ b.writeKeys ∧ pairOf k = p := by
  simp [writtenRows]

/-- The rows after the batch are those that are left and those that are written, less the dead ones. -/
theorem card_after :
    (holders (afterBatch d b) p b.now).card + (deadWrites d b p).card =
      (leftRows d b p ∪ writtenRows b p).card := by
  have hsplit : leftRows d b p ∪ writtenRows b p =
      holders (afterBatch d b) p b.now ∪ deadWrites d b p := by
    ext k
    simp only [Finset.mem_union, mem_leftRows, mem_writtenRows, mem_holders, deadWrites,
      List.mem_toFinset, List.mem_filter, Bool.and_eq_true, decide_eq_true_eq, Bool.not_eq_true']
    by_cases hw : k ∈ b.writeKeys
    · -- a written row is active after the batch, or dead
      cases (afterBatch d b).active b.now k <;> simp [hw] <;> tauto
    · rw [active_afterBatch_of_not_mem hw, active_afterDeletes]
      simp [hw]
  have hdisjoint : Disjoint (holders (afterBatch d b) p b.now) (deadWrites d b p) := by
    rw [Finset.disjoint_left]
    intro k hk hdead
    have hact : (afterBatch d b).active b.now k = true := (mem_holders.mp hk).2
    simp [deadWrites, hact] at hdead
  rw [hsplit, Finset.card_union_of_disjoint hdisjoint]

/-- The added rows that `_check_relation_floor` counts. -/
def addedRows (d : Db) (b : FloorBatch) (p : Pair) : Finset RowKey :=
  (b.writeKeys.filter fun k => pairOf k = p && k.userId ≠ wildcard &&
    !(d.active b.now k && k ∉ b.deleteKeys)).toFinset

/-- The added rows are the written rows that are not left, less the wildcards. -/
theorem card_added :
    (leftRows d b p).card + (addedRows d b p).card + (newWildcards d b p).card =
      (leftRows d b p ∪ writtenRows b p).card := by
  have hsplit : writtenRows b p \ leftRows d b p = addedRows d b p ∪ newWildcards d b p := by
    ext k
    simp only [Finset.mem_sdiff, Finset.mem_union, mem_leftRows, mem_writtenRows, addedRows, newWildcards,
      List.mem_toFinset, List.mem_filter, Bool.and_eq_true, decide_eq_true_eq, Bool.not_eq_true',
      Bool.and_eq_false_iff, decide_eq_false_iff_not, not_not]
    cases d.active b.now k <;> simp <;> tauto
  have hdisjoint : Disjoint (addedRows d b p) (newWildcards d b p) := by
    rw [Finset.disjoint_left]
    intro k hk hwild
    simp only [addedRows, newWildcards, List.mem_toFinset, List.mem_filter, Bool.and_eq_true,
      decide_eq_true_eq] at hk hwild
    exact hk.2.1.2 hwild.2.1.2
  rw [Nat.add_assoc, ← Finset.card_union_of_disjoint hdisjoint, ← hsplit, Nat.add_comm,
    Finset.card_sdiff_add_card, Finset.union_comm]

/-- The active rows are those that are left and those that are deleted. -/
theorem card_removing :
    (leftRows d b p).card + ((holders d p b.now).filter (· ∈ b.deleteKeys)).card =
      (holders d p b.now).card := by
  rw [Nat.add_comm]
  exact Finset.card_filter_add_card_filter_not _

theorem loses_iff : Loses d b p ↔ 0 < ((holders d p b.now).filter (· ∈ b.deleteKeys)).card := by
  rw [Finset.card_pos]
  constructor
  · rintro ⟨k, hk, hp, hact⟩
    exact ⟨k, Finset.mem_filter.mpr ⟨mem_holders.mpr ⟨hp, hact⟩, hk⟩⟩
  · rintro ⟨k, hk⟩
    obtain ⟨hhold, hdel⟩ := Finset.mem_filter.mp hk
    obtain ⟨hp, hact⟩ := mem_holders.mp hhold
    exact ⟨k, hdel, hp, hact⟩

/-- **What the decision about a pair compares**: the rows after the batch with the dead writes, against
the floor with the wildcards that are added. -/
theorem floorKept_eq_false_iff {m : ℕ} (hm : d.minDirect p.key = some m) :
    floorKept d b.now p b.deleteKeys b.writeKeys = false ↔ Loses d b p ∧
      (holders (afterBatch d b) p b.now).card + (deadWrites d b p).card <
        m + (newWildcards d b p).card := by
  have hafter := card_after (d := d) (b := b) (p := p)
  have hadded := card_added (d := d) (b := b) (p := p)
  have hremoving := card_removing (d := d) (b := b) (p := p)
  rw [loses_iff]
  simp only [floorKept, hm]
  rw [← addedRows, Bool.or_eq_false_iff, decide_eq_false_iff_not, decide_eq_false_iff_not]
  omega

end Counts

/-! ## When a batch is refused -/

section Refusal

variable {d : Db} {b : FloorBatch}

theorem mem_flooredPairs {p : Pair} :
    p ∈ flooredPairs d b.store b.deleteKeys ↔
      (d.minDirect p.key).isSome ∧ ∃ k ∈ b.deleteKeys, pairOf k = p := by
  have hstore : ∀ k ∈ b.deleteKeys, k.storeId = b.store := by
    intro k hk
    obtain ⟨t, -, rfl⟩ := List.mem_map.mp hk
    rfl
  simp only [flooredPairs, List.mem_map, mem_distinct, List.mem_filter]
  constructor
  · rintro ⟨_, ⟨k, ⟨hk, hfloor⟩, rfl⟩, rfl⟩
    have hpair : pairOf k = ⟨b.store, k.objectType, k.objectId, k.relation⟩ := by
      rw [pairOf, hstore k hk]
    rw [hpair] at hfloor
    exact ⟨hfloor, k, hk, hpair⟩
  · rintro ⟨hfloor, k, hk, rfl⟩
    refine ⟨_, ⟨k, ⟨hk, hfloor⟩, rfl⟩, ?_⟩
    rw [pairOf, hstore k hk]
    rfl

/-- **When a batch is refused**: some floored pair loses an active row and falls below its floor by the
counts. -/
theorem refusesFloors_iff :
    refusesFloors d b = true ↔ ∃ p m, Floored d b p m ∧ Loses d b p ∧
      (holders (afterBatch d b) p b.now).card + (deadWrites d b p).card <
        m + (newWildcards d b p).card := by
  simp only [refusesFloors, List.any_eq_true, Bool.not_eq_true', mem_flooredPairs]
  constructor
  · rintro ⟨p, ⟨hfloor, k, hk, rfl⟩, hkept⟩
    obtain ⟨m, hm⟩ := Option.isSome_iff_exists.mp hfloor
    obtain ⟨t, -, rfl⟩ := List.mem_map.mp hk
    exact ⟨_, m, ⟨rfl, hm⟩, (floorKept_eq_false_iff hm).mp hkept⟩
  · rintro ⟨p, m, ⟨-, hm⟩, hloses, hlt⟩
    have ⟨k, hk, hp, _⟩ := hloses
    exact ⟨p, ⟨by rw [hm]; rfl, k, hk, hp⟩, (floorKept_eq_false_iff hm).mpr ⟨hloses, hlt⟩⟩

end Refusal

/-- The rows of a pair that are left or written are between the floor and what the wildcards that the batch
adds and its dead writes make of it. -/
def Crossed (d : Db) (b : FloorBatch) (p : Pair) (m : ℕ) : Prop :=
  m + min (deadWrites d b p).card (newWildcards d b p).card ≤ (leftRows d b p ∪ writtenRows b p).card ∧
    (leftRows d b p ∪ writtenRows b p).card <
      m + max (deadWrites d b p).card (newWildcards d b p).card

/--
The shifts of the counts do not matter: they cross the floor of no pair that loses a row, or else one pair
is short of its floor with the dead writes and one with the wildcards.
-/
def FloorsLineUp (d : Db) (b : FloorBatch) : Prop :=
  (∀ p m, Floored d b p m → Loses d b p → ¬ Crossed d b p m) ∨
  ((∃ p m, Floored d b p m ∧ Loses d b p ∧
      (leftRows d b p ∪ writtenRows b p).card < m + (deadWrites d b p).card) ∧
    ∃ p m, Floored d b p m ∧ Loses d b p ∧
      (leftRows d b p ∪ writtenRows b p).card < m + (newWildcards d b p).card)

/-- **When floors are exact**: a batch is refused exactly if a pair that loses an active row ends below its
floor, provided that the counts line up. -/
theorem floors_exact_iff (d : Db) (b : FloorBatch) :
    (refusesFloors d b = true ↔ BelowFloor d b) ↔ FloorsLineUp d b := by
  have hafter : ∀ p, (holders (afterBatch d b) p b.now).card + (deadWrites d b p).card =
      (leftRows d b p ∪ writtenRows b p).card := fun p => card_after
  have hbelow : BelowFloor d b ↔ ∃ p m, Floored d b p m ∧ Loses d b p ∧
      (leftRows d b p ∪ writtenRows b p).card < m + (deadWrites d b p).card := by
    unfold BelowFloor
    refine exists_congr fun p => exists_congr fun m => and_congr_right fun _ => and_congr_right fun _ => ?_
    have := hafter p
    omega
  have hrefuses : refusesFloors d b = true ↔ ∃ p m, Floored d b p m ∧ Loses d b p ∧
      (leftRows d b p ∪ writtenRows b p).card < m + (newWildcards d b p).card := by
    rw [refusesFloors_iff]
    simp only [hafter]
  rw [hbelow, hrefuses, FloorsLineUp]
  constructor
  · intro hiff
    by_cases hcross : ∀ p m, Floored d b p m → Loses d b p → ¬ Crossed d b p m
    · exact .inl hcross
    · -- the pair that is crossed is short on one side, and so some pair is on the other one
      push Not at hcross
      obtain ⟨p, m, hfloor, hloses, hle, hlt⟩ := hcross
      right
      by_cases hdead : (leftRows d b p ∪ writtenRows b p).card < m + (deadWrites d b p).card
      · exact ⟨⟨p, m, hfloor, hloses, hdead⟩, hiff.mpr ⟨p, m, hfloor, hloses, hdead⟩⟩
      · have hwild : (leftRows d b p ∪ writtenRows b p).card < m + (newWildcards d b p).card := by
          omega
        exact ⟨hiff.mp ⟨p, m, hfloor, hloses, hwild⟩, ⟨p, m, hfloor, hloses, hwild⟩⟩
  · rintro (hcross | ⟨hdead, hwild⟩)
    · refine exists_congr fun p => exists_congr fun m =>
        and_congr_right fun hfloor => and_congr_right fun hloses => ?_
      have hnot := hcross p m hfloor hloses
      unfold Crossed at hnot
      omega
    · exact iff_of_true hwild hdead

/-! ## A wildcard that is written again -/

/-- A store with the floor 1 on a relation of a document, whose only holder is the wildcard. -/
def wildcardOwner : Tuple := ⟨1, wildcard, none, 3, 2, "plan", none, none, none⟩

def wildcardDb : Db where
  types := []
  rows := (∅ : AList fun _ : RowKey => Tuple).insert (wildcardOwner.rowKey 1) wildcardOwner
  constraints := [(⟨1, 2, 3⟩, ⟨none, some 1⟩)]
  restrictions := []
  rules := []

/-- The batch deletes the wildcard and writes it again until the instant 9. -/
def rewriteWildcard : FloorBatch :=
  ⟨5, 1, [wildcardOwner], [.single { wildcardOwner with expiresAt := some 9 }]⟩

/-- The batch is refused, though its pair has as many active rows as before. -/
theorem rewriteWildcard_refused :
    ¬ (refusesFloors wildcardDb rewriteWildcard = true ↔ BelowFloor wildcardDb rewriteWildcard) := by
  have hrefused : refusesFloors wildcardDb rewriteWildcard = true := by
    decide
  rintro ⟨hbelow, -⟩
  obtain ⟨p, m, ⟨-, hm⟩, ⟨k, hk, rfl, -⟩, hlt⟩ := hbelow hrefused
  have hkey : k = wildcardOwner.rowKey 1 := by
    simpa [FloorBatch.deleteKeys, rewriteWildcard] using hk
  subst hkey
  have hm1 : m = 1 := by
    have : wildcardDb.minDirect (pairOf (wildcardOwner.rowKey 1)).key = some 1 := by decide
    rw [this] at hm
    exact (Option.some.inj hm).symm
  subst hm1
  exact absurd hlt (by decide)

end PgAuthz.Paths
