import Mathlib
import PgAuthz.Audit.Trail
import PgAuthz.Transition.Locking
import PgAuthz.Transition.Scripts

/-!
# The statements of the write paths

What the functions that write tuples or edit the model do statement by statement: the locks they
take, the caps (`max_direct`) and floors (`min_direct`) they enforce, and the rows they change. Types
and relations are named by their ids. A check that can only refuse a call, and that none of these
depends on, is left to the abort of its transaction.

## Main definitions

* `Lock`: the locks of the table, of a store, of a relation of the model, and of an object
* `Db`, `DbChange`: the tables that the statements read and write, and a changed row
* `holders`: the rows of a relation on an object that are active at a time
* `Stmt`, `Stmt.exec`: the statements, and what they do

## Main results

* `mem_holders`: who holds a relation
* `pairwise_distinct`: locks that are taken in a sorted pass come in strictly increasing order
-/

namespace PgAuthz.Paths

open Locking

/-! ## Locks -/

/-- The modes in which the calls lock the table `authz.tuples`. -/
inductive TableMode
  | accessShare
  | rowExclusive
  | shareRowExclusive
  | accessExclusive
deriving DecidableEq, Repr

/-- The modes that conflict. -/
def TableMode.conflicts : TableMode → TableMode → Bool
  | accessExclusive, _ => true
  | _, accessExclusive => true
  | accessShare, _ => false
  | _, accessShare => false
  | rowExclusive, rowExclusive => false
  | _, _ => true

/-- A lock: of the table, of a store (`<store>:*`), of a relation of the model
(`relation-model:<store>:<type>:<relation>`), and of an object (`<store>:<type>:<id>`). -/
inductive Lock
  | table (mode : TableMode)
  | store (store : ℕ) (mode : Mode)
  | model (store objectType relation : ℕ)
  | object (store objectType : ℕ) (objectId : String)
deriving DecidableEq, Repr

/-- The locks that no two transactions hold at a time. -/
def Lock.conflicts : Lock → Lock → Bool
  | table a, table b => a.conflicts b
  | store s a, store s' b => s = s' && (a = .exclusive || b = .exclusive)
  | model s t r, model s' t' r' => s = s' && t = t' && r = r'
  | object s t o, object s' t' o' => s = s' && t = t' && o = o'
  | _, _ => false

theorem TableMode.conflicts_comm (a b : TableMode) : a.conflicts b = b.conflicts a := by
  cases a <;> cases b <;> rfl

theorem Lock.conflicts_comm (a b : Lock) : a.conflicts b = b.conflicts a := by
  cases a <;> cases b <;> simp only [Lock.conflicts]
  · exact TableMode.conflicts_comm _ _
  · rw [Bool.or_comm]
    congr 1
    exact decide_eq_decide.mpr eq_comm
  · simp only [eq_comm]
  · simp only [eq_comm]

/-! ## Tables -/

/-- A relation of a type in a store. -/
structure RelationKey where
  storeId : ℕ
  objectType : ℕ
  relation : ℕ
deriving DecidableEq, Repr

/-- A relation on an object. -/
structure Pair where
  storeId : ℕ
  objectType : ℕ
  objectId : String
  relation : ℕ
deriving DecidableEq, Repr

/-- The relation on an object that a row is about. -/
def pairOf (k : RowKey) : Pair := ⟨k.storeId, k.objectType, k.objectId, k.relation⟩

/-- The relation of the model that a pair is about. -/
def Pair.key (p : Pair) : RelationKey := ⟨p.storeId, p.objectType, p.relation⟩

/-- The lock of the object of a pair. -/
def Pair.lock (p : Pair) : Lock := .object p.storeId p.objectType p.objectId

/-- The lock of a relation of the model. -/
def RelationKey.lock (κ : RelationKey) : Lock := .model κ.storeId κ.objectType κ.relation

/-- The subject or the object of a row is a wildcard. -/
def isWildcard (k : RowKey) : Bool := k.userId = wildcard || k.objectId = wildcard

/-- The bounds of a row of `authz.relation_constraints` that the write paths enforce. -/
structure Bounds where
  maxDirect : Option ℕ
  minDirect : Option ℕ
deriving DecidableEq, Repr

/-- A row of `authz.type_restrictions` without its store. -/
structure Facet where
  objectType : ℕ
  relation : ℕ
  allowedUserType : ℕ
  allowedUserRelation : Option ℕ
  allowWildcard : Bool
  conditionId : Option ℕ
deriving DecidableEq, Repr

/-- A row of `authz.models` with its store and its flag. -/
structure ModelRow where
  storeId : ℕ
  rule : Rule
  allowObjectWildcard : Bool
deriving DecidableEq, Repr

/-- The unique key of `authz.models`. -/
def ModelRow.key (a : ModelRow) : ℕ × ℕ × ℕ × RuleBody × ℤ × Bool :=
  (a.storeId, a.rule.objectType, a.rule.relation, a.rule.body, a.rule.groupId, a.rule.negated)

/-- A row of `authz.types`, and whether the type has a partition of its own. -/
structure TypeRow where
  storeId : ℕ
  id : ℕ
  partitioned : Bool
deriving DecidableEq, Repr

/-- The tables that the statements read and write. -/
structure Db where
  types : List TypeRow
  rows : AList fun _ : RowKey => Tuple
  constraints : List (RelationKey × Bounds)
  restrictions : List (ℕ × Facet)
  rules : List ModelRow

/-- A changed row: inserted or updated, or else deleted. -/
inductive DbChange
  | row (key : RowKey) (new : Option Tuple)
  | constraint (key : RelationKey) (new : Option Bounds)
  | restriction (store : ℕ) (facet : Facet) (keep : Bool)
  | rule (row : ModelRow) (keep : Bool)
  | type (row : TypeRow) (keep : Bool)
deriving DecidableEq, Repr

/-- A list of rows after one of them is inserted, unless it is there, or deleted. -/
def keepRow {α : Type} [DecidableEq α] (rows : List α) (row : α) (keep : Bool) : List α :=
  if keep then rows.filter (· ≠ row) ++ [row] else rows.filter (· ≠ row)

/-- The rules after one of them is inserted, or its flag is updated, or it is deleted. -/
def keepRule (rules : List ModelRow) (row : ModelRow) (keep : Bool) : List ModelRow :=
  if keep then
    if rules.any (·.key = row.key) then
      rules.map fun ρ =>
        if ρ.key = row.key then { ρ with allowObjectWildcard := row.allowObjectWildcard } else ρ
    else rules ++ [row]
  else rules.filter (·.key ≠ row.key)

/-- The tables after a change. -/
def Db.apply (d : Db) : DbChange → Db
  | .row k none => { d with rows := d.rows.erase k }
  | .row k (some t) => { d with rows := d.rows.insert k t }
  | .constraint κ new =>
    { d with
      constraints := d.constraints.filter (·.1 ≠ κ) ++ (new.map fun b => (κ, b)).toList }
  | .restriction store f keep => { d with restrictions := keepRow d.restrictions (store, f) keep }
  | .rule ρ keep => { d with rules := keepRule d.rules ρ keep }
  | .type row keep => { d with types := keepRow d.types row keep }

/-- The row of a key after a change, if the change is about it. -/
def DbChange.rowOf (k : RowKey) : DbChange → Option (Option Tuple)
  | row k' new => if k' = k then some new else none
  | _ => none

/-- The row of a key after a list of changes, if one of them is about it. -/
def lastRow (k : RowKey) : List DbChange → Option (Option Tuple)
  | [] => none
  | ch :: chs => (lastRow k chs).or (ch.rowOf k)

theorem lookup_apply (d : Db) (ch : DbChange) (k : RowKey) :
    (d.apply ch).rows.lookup k = (ch.rowOf k).getD (d.rows.lookup k) := by
  cases ch with
  | row k' new =>
    by_cases hk : k' = k
    · subst hk
      cases new with
      | none => simp [Db.apply, DbChange.rowOf]
      | some t => simp [Db.apply, DbChange.rowOf]
    · have hne : k ≠ k' := fun h => hk h.symm
      cases new with
      | none => simp [Db.apply, DbChange.rowOf, hk, AList.lookup_erase_ne hne]
      | some t => simp [Db.apply, DbChange.rowOf, hk, AList.lookup_insert_ne hne]
  | _ => rfl

/-- **The rows after changes**: the last change of a key decides its row. -/
theorem lookup_foldl_apply (d : Db) (chs : List DbChange) (k : RowKey) :
    (chs.foldl Db.apply d).rows.lookup k = (lastRow k chs).getD (d.rows.lookup k) := by
  induction chs generalizing d with
  | nil => rfl
  | cons ch chs ih =>
    rw [List.foldl_cons, ih, lookup_apply, lastRow]
    cases lastRow k chs with
    | none => rfl
    | some new => rfl

theorem lastRow_append (k : RowKey) (chs chs' : List DbChange) :
    lastRow k (chs ++ chs') = (lastRow k chs').or (lastRow k chs) := by
  induction chs with
  | nil => simp [lastRow]
  | cons ch chs ih => rw [List.cons_append, lastRow, ih, lastRow, Option.or_assoc]

/-- The row that a list of changes leaves comes from one of them. -/
theorem mem_of_lastRow {k : RowKey} {chs : List DbChange} {new : Option Tuple}
    (h : lastRow k chs = some new) : DbChange.row k new ∈ chs := by
  induction chs with
  | nil => cases h
  | cons ch chs ih =>
    rcases Option.or_eq_some_iff.mp h with h | ⟨-, h⟩
    · exact List.mem_cons_of_mem ch (ih h)
    · cases ch with
      | row k' new' =>
        rw [DbChange.rowOf] at h
        split at h
        · rename_i hk
          cases h
          subst hk
          exact List.mem_cons_self
        · cases h
      | _ => cases h

/-! ## Caps, floors and holders -/

/-- The bounds of a relation. -/
def Db.bounds (d : Db) (κ : RelationKey) : Option Bounds :=
  (d.constraints.find? (·.1 = κ)).map Prod.snd

/-- The cap of a relation. -/
def Db.maxDirect (d : Db) (κ : RelationKey) : Option ℕ := (d.bounds κ).bind Bounds.maxDirect

/-- The floor of a relation. -/
def Db.minDirect (d : Db) (κ : RelationKey) : Option ℕ := (d.bounds κ).bind Bounds.minDirect

/-- The row of a key is there and active at a time. -/
def Db.active (d : Db) (now : ℤ) (k : RowKey) : Bool := (d.rows.lookup k).any (Tuple.visibleAt now)

/-- The rows of a relation on an object that are active at a time. -/
def holders (d : Db) (p : Pair) (now : ℤ) : Finset RowKey :=
  (d.rows.keys.filter fun k => pairOf k = p && d.active now k).toFinset

theorem mem_holders {d : Db} {p : Pair} {now : ℤ} {k : RowKey} :
    k ∈ holders d p now ↔ pairOf k = p ∧ d.active now k = true := by
  simp only [holders, List.mem_toFinset, List.mem_filter, Bool.and_eq_true, decide_eq_true_eq]
  refine ⟨fun h => h.2, fun h => ⟨?_, h⟩⟩
  exact AList.mem_keys.mpr (AList.lookup_isSome.mp (Option.isSome_of_any h.2))

/-- Where fewer rows are active there are fewer holders. -/
theorem holders_subset {d d' : Db} {p : Pair} {now now' : ℤ}
    (h : ∀ k, pairOf k = p → d.active now k = true → d'.active now' k = true) :
    holders d p now ⊆ holders d' p now' := by
  intro k hk
  obtain ⟨hp, hact⟩ := mem_holders.mp hk
  exact mem_holders.mpr ⟨hp, h k hp hact⟩

/-- Rows only expire as time goes on. -/
theorem Db.active_anti {d : Db} {k : RowKey} {now now' : ℤ} (hle : now ≤ now')
    (h : d.active now' k = true) : d.active now k = true := by
  obtain ⟨t, ht, hvis⟩ := (Option.any_eq_true _ _).mp h
  refine (Option.any_eq_true _ _).mpr ⟨t, ht, ?_⟩
  unfold Tuple.visibleAt at hvis ⊢
  split at hvis
  · rfl
  · exact decide_eq_true (lt_of_le_of_lt hle (of_decide_eq_true hvis))

theorem holders_anti (d : Db) (p : Pair) {now now' : ℤ} (hle : now ≤ now') :
    holders d p now' ⊆ holders d p now :=
  holders_subset fun _ _ h => Db.active_anti hle h

/-- An active row of a relation has a wildcard for its subject or its object. -/
def Db.activeWildcard (d : Db) (κ : RelationKey) (now : ℤ) : Bool :=
  d.rows.keys.any fun k => (pairOf k).key = κ && isWildcard k && d.active now k

/-- A facet or a rule of a relation allows wildcards. -/
def Db.allowsWildcards (d : Db) (κ : RelationKey) : Bool :=
  (d.restrictions.any fun f => f.1 = κ.storeId && f.2.objectType = κ.objectType &&
      f.2.relation = κ.relation && f.2.allowWildcard) ||
    d.rules.any fun ρ => ρ.storeId = κ.storeId && ρ.rule.objectType = κ.objectType &&
      ρ.rule.relation = κ.relation && ρ.rule.body = .direct && ρ.allowObjectWildcard

/-! ## Sorted passes -/

/-- `SELECT DISTINCT … ORDER BY`. -/
def distinct {α : Type} [LinearOrder α] (l : List α) : List α := l.dedup.insertionSort (· ≤ ·)

theorem mem_distinct {α : Type} [LinearOrder α] {l : List α} {a : α} : a ∈ distinct l ↔ a ∈ l := by
  rw [distinct, List.mem_insertionSort, List.mem_dedup]

/-- **A sorted pass is strictly increasing.** -/
theorem pairwise_distinct {α : Type} [LinearOrder α] (l : List α) : (distinct l).Pairwise (· < ·) := by
  have hle : (distinct l).Pairwise (· ≤ ·) := List.pairwise_insertionSort _ _
  have hne : (distinct l).Pairwise (· ≠ ·) :=
    ((List.perm_insertionSort _ _).nodup_iff).mpr (List.nodup_dedup l)
  exact (hle.and hne).imp fun h => lt_of_le_of_ne h.1 h.2

/-- The objects of tuples. -/
def objectsOf (tuples : List Tuple) : List (ℕ ×ₗ String) :=
  tuples.map fun t => toLex (t.objectType, t.objectId)

/-- `_lock_capped_objects`: the locks of the relations that a wildcard is written to, then those of
the objects of capped relations. -/
def lockCappedObjects (d : Db) (store : ℕ) (tuples : List Tuple) : List Lock :=
  (distinct ((tuples.filter fun t => isWildcard (t.rowKey store)).map fun t =>
      toLex (t.objectType, t.relation))).map (fun m => Lock.model store (ofLex m).1 (ofLex m).2) ++
    (distinct (objectsOf (tuples.filter fun t =>
      (d.maxDirect ⟨store, t.objectType, t.relation⟩).isSome))).map
        fun o => Lock.object store (ofLex o).1 (ofLex o).2

/-- The pairs of rows to be deleted whose relation has a floor, in the order of
`_check_relation_floor`. -/
def flooredPairs (d : Db) (store : ℕ) (deletes : List RowKey) : List Pair :=
  (distinct ((deletes.filter fun k => (d.minDirect (pairOf k).key).isSome).map fun k =>
    (toLex (k.objectType, toLex (k.objectId, k.relation)) : ℕ ×ₗ String ×ₗ ℕ))).map fun p =>
      ⟨store, (ofLex p).1, (ofLex (ofLex p).2).1, (ofLex (ofLex p).2).2⟩

/-- What `_check_relation_floor` decides for a pair under the lock of its object: the rows that are
left and added must not be fewer than the floor, unless no active row is deleted. -/
def floorKept (d : Db) (now : ℤ) (p : Pair) (deletes writes : List RowKey) : Bool :=
  match d.minDirect p.key with
  | none => true
  | some m =>
    let removing := (holders d p now).filter (· ∈ deletes)
    -- a write adds a holder, unless it is one that the batch does not delete
    let adding := (writes.filter fun k => pairOf k = p && k.userId ≠ wildcard &&
      !(d.active now k && k ∉ deletes)).toFinset
    removing.card = 0 || m + removing.card ≤ (holders d p now).card + adding.card

/-! ## Statements -/

/-- A constraint of a model definition. -/
structure ConstraintDef where
  objectType : ℕ
  relation : ℕ
  bounds : Bounds
deriving DecidableEq, Repr

/-- The part of a model definition that `apply_model` syncs under the locks. -/
structure ModelDefinition where
  types : List ℕ
  rules : List (Rule × Bool)
  restrictions : List Facet
  constraints : List ConstraintDef
deriving DecidableEq, Repr

/-- A statement of a call. -/
inductive Stmt
  /-- waits for a lock -/
  | lock (l : Lock)
  /-- a check of the arguments -/
  | require (ok : Bool)
  /-- a read of the tuples that can only refuse the call -/
  | scan
  /-- `_lock_capped_objects` -/
  | cappedObjects (tuples : List Tuple)
  /-- a row of an insert: `_tuple_relation_cap_guard` from its start -/
  | insertRow (op : TupleOp)
  /-- the guard reads the cap -/
  | capGuard (op : TupleOp)
  /-- the guard reads the cap again under the lock of the object, and counts -/
  | capCount (op : TupleOp)
  /-- the row is inserted, or updated on a conflict -/
  | putRow (op : TupleOp)
  /-- `_check_relation_floor` -/
  | floors (deletes writes : List RowKey)
  /-- the decision of `_check_relation_floor` for one pair -/
  | floor (p : Pair) (deletes writes : List RowKey)
  /-- a delete of rows by their keys -/
  | deleteRows (keys : List RowKey)
  /-- `delete_user_tuples` reads the rows of the user for the floors -/
  | listUser (userType : ℕ) (userId : String)
  /-- the delete of `delete_user_tuples` -/
  | deleteUser (userType : ℕ) (userId : String)
  /-- `model_set_relation_constraint` looks for wildcards before it sets a cap -/
  | checkWildcards (objectType relation : ℕ) (bounds : Bounds)
  /-- `model_add_rule` and `model_add_type_restriction` look for a cap before they allow wildcards -/
  | checkUncapped (objectType relation : ℕ) (edit : DbChange)
  /-- an edit of the model -/
  | edit (change : DbChange)
  /-- the sorted pass of `apply_model` over the locks of the model -/
  | modelLocks (definition : ModelDefinition)
  /-- `apply_model` looks for types that the definition does not have -/
  | staleTypes (definition : ModelDefinition)
  /-- `model_remove_type` under the lock of the table -/
  | removeType (objectType : ℕ) (force : Bool)
  /-- registers types -/
  | registerTypes (types : List ℕ) (partitioned : Bool)
  /-- `apply_model` deletes the constraints whose cap the definition drops -/
  | staleConstraints (definition : ModelDefinition)
  /-- `apply_model` deletes the rules that the definition does not have -/
  | staleRules (definition : ModelDefinition)
  /-- `apply_model` deletes the restrictions that the definition does not have -/
  | staleRestrictions (definition : ModelDefinition)
  /-- `import_openfga_model` deletes the rules and restrictions of the store -/
  | clearModel
deriving DecidableEq, Repr

/-- The lock that a statement takes: a read of the tuples and a delete take one of the table. The
inserts and the purge of a type run under one that the call holds already. -/
def Stmt.lock? : Stmt → Option Lock
  | lock l => some l
  | scan => some (.table .accessShare)
  | floor _ _ _ => some (.table .accessShare)
  | listUser _ _ => some (.table .accessShare)
  | checkWildcards _ _ _ => some (.table .accessShare)
  | deleteRows _ => some (.table .rowExclusive)
  | deleteUser _ _ => some (.table .rowExclusive)
  | _ => none

/-- The change of one row by an insert or a delete at a statement time. -/
def rowChange (d : Db) (now : ℤ) (op : TupleOp) : Option DbChange :=
  (op.effect now now (d.rows.lookup op.key)).map fun e => .row op.key e.2

/-- The rows of a user that the row policy shows. -/
def userRows (d : Db) (now : ℤ) (store userType : ℕ) (userId : String) : List RowKey :=
  d.rows.keys.filter fun k =>
    k.storeId = store && k.userType = userType && k.userId = userId && d.active now k

/-- The pass of `apply_model` over the locks of the model: every relation with a cap or a wildcard
declaration, live or desired. -/
def relationModels (d : Db) (store : ℕ) (definition : ModelDefinition) : List Lock :=
  let capped := d.constraints.filter fun c => c.1.storeId = store && c.2.maxDirect.isSome
  let open_ := d.restrictions.filter fun f => f.1 = store && f.2.allowWildcard
  let flagged := d.rules.filter fun ρ => ρ.storeId = store && ρ.allowObjectWildcard
  let live := capped.map (fun c => toLex (c.1.objectType, c.1.relation)) ++
    open_.map (fun f => toLex (f.2.objectType, f.2.relation)) ++
    flagged.map fun ρ => toLex (ρ.rule.objectType, ρ.rule.relation)
  let desired :=
    (definition.constraints.filter (·.bounds.maxDirect.isSome)).map
        (fun c => toLex (c.objectType, c.relation)) ++
      (definition.restrictions.filter (·.allowWildcard)).map
        (fun f => toLex (f.objectType, f.relation)) ++
      (definition.rules.filter (·.2)).map fun ρ => toLex (ρ.1.objectType, ρ.1.relation)
  (distinct (live ++ desired)).map fun m => .model store (ofLex m).1 (ofLex m).2

/-- A row names a type as its object or its subject. -/
def namesType (store objectType : ℕ) (k : RowKey) : Bool :=
  k.storeId = store && (k.objectType = objectType || k.userType = objectType)

/-- What `model_remove_type` deletes: the tuples that name the type, and the rows of the model. -/
def typeRemovals (d : Db) (store objectType : ℕ) : List DbChange :=
  (d.rows.keys.filter (namesType store objectType)).map (DbChange.row · none) ++
    (d.constraints.filter fun c => c.1.storeId = store && c.1.objectType = objectType).map
      (DbChange.constraint ·.1 none) ++
    (d.restrictions.filter fun f => f.1 = store &&
      (f.2.objectType = objectType || f.2.allowedUserType = objectType)).map
      (fun f => DbChange.restriction f.1 f.2 false) ++
    (d.rules.filter fun ρ => ρ.storeId = store && ρ.rule.objectType = objectType).map (DbChange.rule · false)

/-- The scripts of `model_remove_type` and of the stale types in `apply_model`. -/
def modelRemoveType (objectType : ℕ) (force : Bool) : List Stmt :=
  [.lock (.table .shareRowExclusive), .removeType objectType force]

/-- A definition keeps a constraint, or at least its bounds without a cap. -/
def ModelDefinition.keepsConstraint (definition : ModelDefinition) (κ : RelationKey) (b : Bounds) :
    Bool :=
  definition.constraints.any fun c => c.objectType = κ.objectType && c.relation = κ.relation &&
    (b.maxDirect.isNone || c.bounds.maxDirect.isSome)

/-- What a statement of a call at a statement time does to the tables it sees, and the statements
that it sends before the ones that are left; `none` if it raises. -/
def Stmt.exec (now : ℤ) (store : ℕ) : Stmt → Db → Option (List DbChange × List Stmt)
  | lock _, _ => some ([], [])
  | require ok, _ => if ok then some ([], []) else none
  | scan, _ => some ([], [])
  | cappedObjects tuples, d => some ([], (lockCappedObjects d store tuples).map .lock)
  | insertRow op, _ =>
    let guard := [capGuard op]
    some ([], if isWildcard op.key then lock (pairOf op.key).key.lock :: guard else guard)
  | capGuard op, d =>
    match d.maxDirect (pairOf op.key).key with
    | none => some ([], [putRow op])
    | some _ =>
      if isWildcard op.key then none else some ([], [lock (pairOf op.key).lock, capCount op])
  | capCount op, d =>
    match d.maxDirect (pairOf op.key).key with
    | none => some ([], [putRow op])
    | some m =>
      -- the row itself does not count
      if m ≤ ((holders d (pairOf op.key) now).erase op.key).card then none
      else some ([], [putRow op])
  | putRow op, d => some ((rowChange d now op).toList, [])
  | floors deletes writes, d =>
    some ([], (flooredPairs d store deletes).flatMap fun p => [lock p.lock, floor p deletes writes])
  | floor p deletes writes, d => if floorKept d now p deletes writes then some ([], []) else none
  | deleteRows keys, d => some (keys.filterMap fun k => rowChange d now (.delete k), [])
  | listUser userType userId, d => some ([], [floors (userRows d now store userType userId) []])
  | deleteUser userType userId, d =>
    some ((userRows d now store userType userId).map (.row · none), [])
  | checkWildcards objectType relation b, d =>
    let κ : RelationKey := ⟨store, objectType, relation⟩
    if d.allowsWildcards κ || d.activeWildcard κ now then none
    else some ([], [edit (.constraint κ (some b))])
  | checkUncapped objectType relation ch, d =>
    if (d.maxDirect ⟨store, objectType, relation⟩).isSome then none else some ([], [edit ch])
  | edit ch, _ => some ([ch], [])
  | modelLocks definition, d => some ([], (relationModels d store definition).map lock)
  | staleTypes definition, d =>
    let stale := d.types.filter fun t => t.storeId = store && t.id ∉ definition.types
    some ([], (distinct (stale.map TypeRow.id)).flatMap (modelRemoveType · false))
  | removeType objectType force, d =>
    if d.rows.keys.any (namesType store objectType) && !force then none
    else
      let dropped := d.types.filter fun t => t.storeId = store && t.id = objectType
      -- the partition of the type is detached at the end
      let detach := if dropped.any TypeRow.partitioned then [lock (.table .accessExclusive)] else []
      some (typeRemovals d store objectType, detach ++ dropped.map fun t => edit (.type t false))
  | registerTypes types partitioned, d =>
    let missing := types.filter fun t => !d.types.any fun row => row.storeId = store && row.id = t
    some (missing.map fun t => .type ⟨store, t, partitioned⟩ true, [])
  | staleConstraints definition, d =>
    let stale := d.constraints.filter fun c =>
      c.1.storeId = store && !definition.keepsConstraint c.1 c.2
    some (stale.map (.constraint ·.1 none), [])
  | staleRules definition, d =>
    let stale := d.rules.filter fun ρ =>
      ρ.storeId = store && !definition.rules.any fun w => w.1 = ρ.rule
    some (stale.map (.rule · false), [])
  | staleRestrictions definition, d =>
    let stale := d.restrictions.filter fun f => f.1 = store && f.2 ∉ definition.restrictions
    some (stale.map fun f => .restriction f.1 f.2 false, [])
  | clearModel, d =>
    some ((d.restrictions.filter fun f => f.1 = store).map (fun f => .restriction f.1 f.2 false) ++
      (d.rules.filter fun ρ => ρ.storeId = store).map (.rule · false), [])

end PgAuthz.Paths
