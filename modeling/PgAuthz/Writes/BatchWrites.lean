import PgAuthz.Writes.Calls
import PgAuthz.Writes.Statements

/-!
# Writing tuples one by one or as a batch

`write_tuple` looks up the names of one tuple, checks it, and upserts its row. `write_tuples` looks up and
checks a whole array by joins and inserts it in one statement, which leaves the condition of a row that is
already there. `write_tuples_jsonb` writes the elements without a condition and an expiry as such a batch,
and then the others by `write_tuple`. The guard of capped relations, a trigger on the rows, is left out.

## Main definitions

* `TupleInput`, `Element`: an element of the array of `write_tuples`, and of `write_tuples_jsonb`
* `Env`: the names and the model of a store, and what the role may write
* `Env.writeTuple`, `Env.writeTuples`, `Env.writeTuplesJsonb`: the calls
* `Env.oneByOne`: the calls of `write_tuple` for elements
* `SameGrants`: what a batch leaves, compared with writing one by one

## Main results

* `batch_accepts`: the batch writers accept what `write_tuple` accepts, and leave the same tuples
-/

namespace PgAuthz.BatchWrites

open Paths (ModelRow Facet)

/-! ## Arguments and tables -/

/-- The composite type `authz.tuple_input`; `none` is a `NULL`. -/
structure TupleInput where
  userType : Option String
  userId : Option String
  userRelation : Option String
  relation : Option String
  objectType : Option String
  objectId : Option String
deriving DecidableEq, Repr

/-- An element of a `jsonb` array: an object with the texts of its keys, `none` for a missing key and for a
JSON null, or another value. -/
inductive Element
  | object (input : TupleInput) (condition : Option String) (conditionContext : Option Context)
      (expiresAt : Option String)
  | other
deriving DecidableEq, Repr

/-- What the calls read: the names of a store, the start of the transaction, the types whose namespace the
role may write, the rules, the type restrictions by store, the keys that a condition requires in the stored
context, and the cast of a text to an instant. -/
structure Env where
  catalog : Catalog
  store : ℕ
  start : ℤ
  canWrite : ℕ → Bool
  models : List ModelRow
  restrictions : List (ℕ × Facet)
  required : ℕ → List String
  timestamptz : String → Option ℤ

variable (env : Env)

/-- Some direct rule of the relation has `allow_object_wildcard`. -/
def Env.allowsObjectWildcard (objectType relation : ℕ) : Bool :=
  env.models.any fun m => m.storeId = env.store && m.rule.objectType = objectType &&
    m.rule.relation = relation && m.rule.body = .direct && m.allowObjectWildcard

/-- The type restrictions of a relation. -/
def Env.facets (objectType relation : ℕ) : List Facet :=
  (env.restrictions.filter fun r =>
    r.1 = env.store && r.2.objectType = objectType && r.2.relation = relation).map Prod.snd

/-- What a statement does to its row, and whether it inserts or updates it. -/
def applyOp (rows : Table) (op : TupleOp) : Table × Bool :=
  match op.effect 0 0 (rows op.key) with
  | some (_, new) => (Function.update rows op.key new, true)
  | none => (rows, false)

/-! ## write_tuple -/

/-- `CASE WHEN p_user_id = '*' … END` -/
def shapeMatches (f : Facet) (userType : ℕ) (userRelation : Option ℕ) (userId : Option String) : Bool :=
  f.allowedUserType = userType &&
    if userId = some wildcard then f.allowWildcard
    else if userRelation.isSome then f.allowedUserRelation = userRelation
    else f.allowedUserRelation.isNone && !f.allowWildcard

/-- `_check_type_restriction`: false if it raises. -/
def Env.checkTypeRestriction (objectType relation userType : ℕ) (userRelation : Option ℕ)
    (userId : Option String) (conditionId : Option ℕ) : Bool :=
  let facets := env.facets objectType relation
  facets.isEmpty || (facets.filter (shapeMatches · userType userRelation userId)).any fun f =>
    f.conditionId.isNone || (conditionId.isSome && f.conditionId = conditionId)

/-- The condition of a write: its stored context has the keys that it requires. -/
def Env.resolveCondition (condition : Option String) (context : Option Context) : Option (Option ℕ) :=
  match condition with
  | none => some none
  | some name => do
    let id ← resolveName env.catalog.conditions env.store name
    if (env.required id).all fun key => context.any (·.hasKey key) then return some id else none

/-- The row that `write_tuple` writes, unless it raises. The ids of the subject and of the object must not be
`NULL` in the table. -/
def Env.rowOf (t : TupleInput) (condition : Option String) (context : Option Context)
    (expiresAt : Option ℤ) : Option Tuple := do
  let userType ← t.userType.bind (env.catalog.t env.store)
  let relation ← t.relation.bind (env.catalog.r env.store)
  let objectType ← t.objectType.bind (env.catalog.t env.store)
  guard (env.canWrite objectType)
  let userRelation ← orNull t.userRelation (env.catalog.r env.store)
  guard ¬(t.userId = some wildcard ∧ userRelation.isSome)
  guard (expiresAt.all (env.start < ·))
  guard (t.objectId = some wildcard → env.allowsObjectWildcard objectType relation)
  let conditionId ← env.resolveCondition condition context
  guard (env.checkTypeRestriction objectType relation userType userRelation t.userId conditionId)
  let userId ← t.userId
  let objectId ← t.objectId
  return ⟨userType, userId, userRelation, relation, objectType, objectId, conditionId, context, expiresAt⟩

/-- `write_tuple`: the rows, and whether one was inserted or changed. -/
def Env.writeTuple (rows : Table) (t : TupleInput) (condition : Option String) (context : Option Context)
    (expiresAt : Option ℤ) : Option (Table × Bool) :=
  (env.rowOf t condition context expiresAt).map fun row => applyOp rows (.upsert env.store row)

/-! ## write_tuples -/

/-- A row of the join of the array with the types and relations. -/
structure Joined where
  input : TupleInput
  userType : ℕ
  userRelation : Option ℕ
  relation : ℕ
  objectType : ℕ
deriving DecidableEq, Repr

/-- The inner joins with the types and the relation, and the left join with the relation of the userset. -/
def Env.join (t : TupleInput) : Option Joined := do
  let userType ← t.userType.bind (env.catalog.t env.store)
  let relation ← t.relation.bind (env.catalog.r env.store)
  let objectType ← t.objectType.bind (env.catalog.t env.store)
  return ⟨t, userType, t.userRelation.bind (env.catalog.r env.store), relation, objectType⟩

/-- The facet matches a row of the join. -/
def batchShape (f : Facet) (j : Joined) : Bool :=
  f.allowedUserType = j.userType &&
    (if j.input.userId = some wildcard then f.allowWildcard
    else if j.input.userRelation.isSome then
      j.userRelation.isSome && f.allowedUserRelation = j.userRelation
    else f.allowedUserRelation.isNone && !f.allowWildcard) &&
    f.conditionId.isNone

/-- The row that the batch inserts for a row of the join. -/
def Joined.row (j : Joined) : Option Tuple := do
  let userId ← j.input.userId
  let objectId ← j.input.objectId
  return ⟨j.userType, userId, j.userRelation, j.relation, j.objectType, objectId, none, none, none⟩

/-- `_rls_write_tuples`: the insert of the batch. It raises if it meets a row a second time that it has
inserted or updated. -/
def Env.insertAll : List Joined → Table → List RowKey → ℕ → Option (Table × ℕ)
  | [], rows, _, count => some (rows, count)
  | j :: js, rows, touched, count => do
    let row ← j.row
    let k := row.rowKey env.store
    if (rows k).isSome ∧ k ∈ touched then none else
    let (rows, changed) := applyOp rows (.regrant env.store row)
    if changed then Env.insertAll js rows (k :: touched) (count + 1)
    else Env.insertAll js rows touched count

/-- A text that is not `NULL` is a name. -/
def known (names : String → Option ℕ) (text : Option String) : Bool := text.all fun n => (names n).isSome

/-- `write_tuples`: the rows and the number of those inserted or changed. A `NULL` is not among the names that
are reported as unknown. -/
def Env.writeTuples (rows : Table) (tuples : List TupleInput) : Option (Table × ℕ) := do
  guard (tuples.all fun t => known (env.catalog.t env.store) t.userType)
  guard (tuples.all fun t => known (env.catalog.t env.store) t.objectType)
  guard (tuples.all fun t => known (env.catalog.r env.store) t.relation)
  guard (tuples.all fun t => known (env.catalog.r env.store) t.userRelation)
  guard (tuples.all fun t => !(t.userId = some wildcard && t.userRelation.isSome))
  guard (tuples.all fun t => (t.objectType.bind (env.catalog.t env.store)).all fun objectType =>
    (t.relation.bind (env.catalog.r env.store)).all fun relation =>
      !(t.objectId = some wildcard && !env.allowsObjectWildcard objectType relation))
  guard (tuples.all fun t => (t.objectType.bind (env.catalog.t env.store)).all env.canWrite)
  guard ((tuples.filterMap env.join).all fun j =>
    let facets := env.facets j.objectType j.relation
    facets.isEmpty || facets.any (batchShape · j))
  env.insertAll (tuples.filterMap env.join) rows [] 0

/-! ## write_tuples_jsonb -/

/-- `_validate_tuple_jsonb`: an object with the required keys. -/
def Element.valid : Element → Bool
  | .object t _ _ _ =>
    t.userType.isSome && t.userId.isSome && t.relation.isSome && t.objectType.isSome && t.objectId.isSome
  | .other => false

/-- The element is written as part of the batch. -/
def Element.isPlain : Element → Bool
  | .object _ condition _ expiresAt => condition.isNone && expiresAt.isNone
  | .other => true

/-- The texts of an element as a `tuple_input`. -/
def Element.input : Element → TupleInput
  | .object t _ _ _ => t
  | .other => ⟨none, none, none, none, none, none⟩

/-- `write_tuple` for an element. -/
def Env.single (rows : Table) : Element → Option (Table × Bool)
  | .object t condition context expiresAt => do
    let expiresAt ← orNull expiresAt env.timestamptz
    env.writeTuple rows t condition context expiresAt
  | .other => none

/-- The loop over the elements that are not plain. -/
def Env.writeOthers : List Element → Table → ℕ → Option (Table × ℕ)
  | [], rows, count => some (rows, count)
  | e :: es, rows, count => do
    let (rows, changed) ← env.single rows e
    Env.writeOthers es rows (if changed then count + 1 else count)

/-- `write_tuples_jsonb` -/
def Env.writeTuplesJsonb (rows : Table) (elements : List Element) : Option (Table × ℕ) := do
  guard (elements.all Element.valid)
  let (rows, count) ← env.writeTuples rows ((elements.filter Element.isPlain).map Element.input)
  env.writeOthers (elements.filter fun e => !e.isPlain) rows count

/-! ## One by one -/

/-- `write_tuple` for each of the elements in turn. -/
def Env.oneByOne : List Element → Table → Option Table
  | [], rows => some rows
  | e :: es, rows => do
    let (rows, _) ← env.single rows e
    Env.oneByOne es rows

/-- The element without a condition and an expiry. -/
def TupleInput.element (t : TupleInput) : Element := .object t none none none

/-- The unique key of the tuple that an element names. -/
def Env.keyOf (t : TupleInput) : Option RowKey := do
  let j ← env.join t
  let row ← j.row
  return row.rowKey env.store

/-- No tuple is named twice, unless it is stored without an expiry. -/
def Env.Distinct (rows : Table) (tuples : List TupleInput) : Prop :=
  tuples.Pairwise fun t u => ∀ k, env.keyOf t = some k → env.keyOf u = some k →
    ∃ old, rows k = some old ∧ old.expiresAt = none

/-- The types and the relation are not `NULL`. -/
def TupleInput.Named (t : TupleInput) : Prop :=
  t.userType.isSome ∧ t.relation.isSome ∧ t.objectType.isSome

/-- A row without its condition. -/
def bare (t : Tuple) : Tuple := { t with conditionId := none, conditionContext := none }

/-- A batch leaves the same tuples with the same expiry as writing one by one. The rows are the same, but for
those that only the plain elements name: there a row that was stored keeps its condition, and a new one has
none. -/
structure SameGrants (stored batch singles : Table) (plain others : List TupleInput) : Prop where
  same_tuples : ∀ k, (batch k).map bare = (singles k).map bare
  same_rows : ∀ k, (∀ t ∈ plain, env.keyOf t ≠ some k) ∨ (∃ t ∈ others, env.keyOf t = some k) →
    batch k = singles k
  kept : ∀ t ∈ plain, ∀ k, env.keyOf t = some k → (∀ u ∈ others, env.keyOf u ≠ some k) →
    ∀ old, stored k = some old → batch k = some { old with expiresAt := none }
  unconditional : ∀ t ∈ plain, ∀ k, env.keyOf t = some k → (∀ u ∈ others, env.keyOf u ≠ some k) →
    stored k = none → ∃ row, batch k = some row ∧ row.conditionId = none ∧ row.conditionContext = none

variable {env}

/-! ## What is accepted -/

/-- A tuple that names what it needs passes the checks of the batch, and has ids. -/
def Env.batchAccepts (env : Env) (t : TupleInput) : Prop :=
  known (env.catalog.t env.store) t.userType ∧ known (env.catalog.t env.store) t.objectType ∧
  known (env.catalog.r env.store) t.relation ∧ known (env.catalog.r env.store) t.userRelation ∧
  (!(t.userId = some wildcard && t.userRelation.isSome)) ∧
  ((t.objectType.bind (env.catalog.t env.store)).all fun objectType =>
    (t.relation.bind (env.catalog.r env.store)).all fun relation =>
      !(t.objectId = some wildcard && !env.allowsObjectWildcard objectType relation)) ∧
  ((t.objectType.bind (env.catalog.t env.store)).all env.canWrite) ∧
  ∀ j, env.join t = some j → ((env.facets j.objectType j.relation).isEmpty ||
    (env.facets j.objectType j.relation).any (batchShape · j)) ∧ j.row.isSome

/-- The join matches a facet as `_check_type_restriction` does for a write without a condition. -/
theorem batchShape_eq (f : Facet) (t : TupleInput) {ut r ot : ℕ} {ur : Option ℕ}
    (hur : t.userRelation.isSome = ur.isSome) :
    batchShape f ⟨t, ut, ur, r, ot⟩ = (shapeMatches f ut ur t.userId && f.conditionId.isNone) := by
  simp only [batchShape, shapeMatches, hur]
  cases ur <;> simp

theorem isSome_guard_bind {α : Type} {p : Prop} [Decidable p] (f : Unit → Option α) :
    ((guard p : Option Unit).bind f).isSome = true ↔ p ∧ (f ()).isSome = true := by
  by_cases hp : p <;> simp [guard, hp]

/-- **The joins check a tuple as `write_tuple` does**: facet, wildcards, userset, namespace and names. -/
theorem batchAccepts_iff {t : TupleInput} (ht : t.Named) (context : Option Context) :
    env.batchAccepts t ↔ (env.rowOf t none context none).isSome := by
  obtain ⟨ut, ui, ur, r, ot, oi⟩ := t
  obtain ⟨hut, hr, hot⟩ := ht
  dsimp only at hut hr hot
  obtain ⟨ut, rfl⟩ := Option.isSome_iff_exists.mp hut
  obtain ⟨r, rfl⟩ := Option.isSome_iff_exists.mp hr
  obtain ⟨ot, rfl⟩ := Option.isSome_iff_exists.mp hot
  simp only [Env.batchAccepts, Env.rowOf, Env.join, known, Option.bind_some, Option.all_some,
    Env.resolveCondition, Option.bind_eq_bind, Option.pure_def]
  cases hut : env.catalog.t env.store ut with
  | none => simp
  | some ut' =>
    cases hr : env.catalog.r env.store r with
    | none => simp
    | some r' =>
      cases hot : env.catalog.t env.store ot with
      | none => simp
      | some ot' =>
        cases ur with
        | none =>
          simp only [orNull, Option.bind_some, isSome_guard_bind, Env.checkTypeRestriction, Joined.row]
          cases ui with
          | none => simp
          | some ui =>
            cases oi with
            | none => simp
            | some oi =>
              simp [batchShape_eq, isSome_guard_bind]
              rw [← imp_iff_not_or]
              exact and_left_comm
        | some ur =>
          cases hur : env.catalog.r env.store ur with
          | none => simp [orNull, hur]
          | some ur' =>
            simp only [orNull, hur, Option.map_some, Option.bind_some, isSome_guard_bind,
              Env.checkTypeRestriction, Joined.row]
            cases ui with
            | none => simp
            | some ui =>
              cases oi with
              | none => simp
              | some oi =>
                simp [batchShape_eq, hur, isSome_guard_bind]
                rw [← imp_iff_not_or]
                constructor
                · rintro ⟨hui, hoi, hwrite, hfacets⟩
                  exact ⟨hwrite, hui, hoi, hfacets⟩
                · rintro ⟨hwrite, hui, hoi, hfacets⟩
                  exact ⟨hui, hoi, hwrite, hfacets⟩

theorem orNull_eq {α : Type} {text : Option String} {f : String → Option α} {x : Option α}
    (h : orNull text f = some x) : text.bind f = x := by
  cases text with
  | none => simpa [orNull] using h
  | some s =>
    obtain ⟨a, ha, rfl⟩ := Option.map_eq_some_iff.mp h
    exact ha

/-- What the row of a write takes from where. -/
theorem rowOf_eq {t : TupleInput} {condition : Option String} {context : Option Context} {expiresAt : Option ℤ}
    {row : Tuple} (h : env.rowOf t condition context expiresAt = some row) :
    (∃ j, env.join t = some j ∧
      j.row = some { row with conditionId := none, conditionContext := none, expiresAt := none }) ∧
    env.resolveCondition condition context = some row.conditionId ∧ row.conditionContext = context ∧
    row.expiresAt = expiresAt := by
  simp only [Env.rowOf, Option.bind_eq_bind, Option.bind_eq_some_iff] at h
  obtain ⟨ut, hut, r, hr, ot, hot, -, -, ur, hur, -, -, -, -, -, -, c, hc, -, -, ui, hui, oi, hoi, h⟩ := h
  cases h
  have hur := orNull_eq hur
  exact ⟨⟨⟨t, ut, ur, r, ot⟩, by simp [Env.join, Option.bind_eq_some_iff.mpr hut, Option.bind_eq_some_iff.mpr hr,
    Option.bind_eq_some_iff.mpr hot, hur], by simp [Joined.row, hui, hoi]⟩, hc, rfl, rfl⟩

theorem keyOf_of_rowOf {t : TupleInput} {condition : Option String} {context : Option Context}
    {expiresAt : Option ℤ} {row : Tuple} (h : env.rowOf t condition context expiresAt = some row) :
    env.keyOf t = some (row.rowKey env.store) := by
  obtain ⟨⟨j, hj, hrow⟩, -⟩ := rowOf_eq h
  simp [Env.keyOf, hj, hrow, Tuple.rowKey]

/-! ## The rows that are left -/

/-- The rows after a batch of plain tuples. -/
def regrantAll (store : ℕ) (ts : List Tuple) (rows : Table) : Table :=
  ts.foldl (fun rows t => (applyOp rows (.regrant store t)).1) rows

/-- The rows after upserts one by one. -/
def upsertAll (store : ℕ) (ts : List Tuple) (rows : Table) : Table :=
  ts.foldl (fun rows t => (applyOp rows (.upsert store t)).1) rows

theorem regrant_apply (store : ℕ) (rows : Table) (t : Tuple) (k : RowKey) :
    (applyOp rows (.regrant store t)).1 k =
      if k = t.rowKey store then
        some { (rows k).getD (bare t) with expiresAt := none }
      else rows k := by
  simp only [applyOp, TupleOp.effect, TupleOp.key]
  by_cases hk : k = t.rowKey store
  · subst hk
    rw [if_pos rfl]
    cases hr : rows (t.rowKey store) with
    | none => simp [bare]
    | some old =>
      by_cases hx : old.expiresAt.isSome
      · simp [hx]
      · have hnone : old.expiresAt = none := by simpa using hx
        simp only [hx, if_neg, Bool.false_eq_true, not_false_eq_true, hr, Option.getD_some, Option.some.injEq]
        rw [← hnone]
  · rw [if_neg hk]
    split
    · exact Function.update_of_ne hk _ _
    · rfl

theorem upsert_apply (store : ℕ) (rows : Table) (t : Tuple) (k : RowKey) :
    (applyOp rows (.upsert store t)).1 k =
      if k = t.rowKey store then
        some { (rows k).getD t with
          conditionId := t.conditionId, conditionContext := t.conditionContext, expiresAt := t.expiresAt }
      else rows k := by
  simp only [applyOp, TupleOp.effect, TupleOp.key]
  by_cases hk : k = t.rowKey store
  · subst hk
    rw [if_pos rfl]
    cases hr : rows (t.rowKey store) with
    | none => simp
    | some old =>
      by_cases hd : old.conditionId ≠ t.conditionId ∨ old.conditionContext ≠ t.conditionContext ∨
          old.expiresAt ≠ t.expiresAt
      · simp [hd]
      · dsimp only
        rw [if_neg hd]
        push Not at hd
        obtain ⟨h₁, h₂, h₃⟩ := hd
        simp only [hr, Option.getD_some, Option.some.injEq]
        rw [← h₁, ← h₂, ← h₃]
  · rw [if_neg hk]
    split
    · exact Function.update_of_ne hk _ _
    · rfl

theorem regrantAll_of_notMem {store : ℕ} {ts : List Tuple} {rows : Table} {k : RowKey}
    (hk : ∀ t ∈ ts, t.rowKey store ≠ k) : regrantAll store ts rows k = rows k := by
  induction ts generalizing rows with
  | nil => rfl
  | cons t ts ih =>
    rw [List.forall_mem_cons] at hk
    rw [regrantAll, List.foldl_cons]
    exact (ih hk.2).trans (by rw [regrant_apply, if_neg (Ne.symm hk.1)])

theorem upsertAll_of_notMem {store : ℕ} {ts : List Tuple} {rows : Table} {k : RowKey}
    (hk : ∀ t ∈ ts, t.rowKey store ≠ k) : upsertAll store ts rows k = rows k := by
  induction ts generalizing rows with
  | nil => rfl
  | cons t ts ih =>
    rw [List.forall_mem_cons] at hk
    rw [upsertAll, List.foldl_cons]
    exact (ih hk.2).trans (by rw [upsert_apply, if_neg (Ne.symm hk.1)])

/-- A batch makes a stored tuple permanent, and leaves its condition. -/
theorem regrantAll_stored {store : ℕ} {ts : List Tuple} {rows : Table} {k : RowKey} {old : Tuple}
    (hr : rows k = some old) : regrantAll store ts rows k =
      some (if ∃ t ∈ ts, t.rowKey store = k then { old with expiresAt := none } else old) := by
  induction ts generalizing rows old with
  | nil => simpa [regrantAll] using hr
  | cons t ts ih =>
    have hstep := regrant_apply store rows t k
    rw [hr, Option.getD_some] at hstep
    by_cases ht : k = t.rowKey store
    · rw [if_pos ht] at hstep
      rw [if_pos ⟨t, List.mem_cons_self, ht.symm⟩]
      exact (ih hstep).trans (by simp)
    · rw [if_neg ht] at hstep
      exact (ih hstep).trans (by simp [Ne.symm ht])

/-- A tuple that a batch inserts has no condition. -/
theorem regrantAll_new {store : ℕ} {ts : List Tuple} {rows : Table} {k : RowKey}
    (hk : ∃ t ∈ ts, t.rowKey store = k) (hr : rows k = none) :
    ∃ row, regrantAll store ts rows k = some row ∧ row.conditionId = none ∧ row.conditionContext = none := by
  induction ts generalizing rows with
  | nil => simp at hk
  | cons t ts ih =>
    have hstep := regrant_apply store rows t k
    rw [hr, Option.getD_none] at hstep
    by_cases ht : k = t.rowKey store
    · rw [if_pos ht] at hstep
      refine ⟨_, (regrantAll_stored hstep : regrantAll store ts _ k = _), ?_⟩
      split <;> exact ⟨rfl, rfl⟩
    · rw [if_neg ht] at hstep
      obtain ⟨u, hu, huk⟩ := hk
      refine ih ⟨u, (List.mem_cons.mp hu).resolve_left fun he => ?_, huk⟩ hstep
      exact ht (he ▸ huk.symm)

/-- The same tuples with the same expiry. -/
def SameBare (rows rows' : Table) : Prop := ∀ k, (rows k).map bare = (rows' k).map bare

theorem SameBare.step {store : ℕ} {rows rows' : Table} {s : Tuple} (h : SameBare rows rows')
    (hx : s.expiresAt = none) :
    SameBare (applyOp rows (.regrant store (bare s))).1 (applyOp rows' (.upsert store s)).1 := by
  intro k
  rw [regrant_apply, upsert_apply]
  have hkey : (bare s).rowKey store = s.rowKey store := rfl
  rw [hkey]
  by_cases hk : k = s.rowKey store
  · rw [if_pos hk, if_pos hk]
    have hk := h k
    cases hr : rows k <;> cases hr' : rows' k <;> simp_all [bare]
  · rw [if_neg hk, if_neg hk]
    exact h k

/-- **A batch of plain tuples leaves what the upserts of them leave**, but for conditions. -/
theorem SameBare.plain {store : ℕ} {rows rows' : Table} {ss : List Tuple} (h : SameBare rows rows')
    (hx : ∀ s ∈ ss, s.expiresAt = none) :
    SameBare (regrantAll store (ss.map bare) rows) (upsertAll store ss rows') := by
  induction ss generalizing rows rows' with
  | nil => exact h
  | cons s ss ih =>
    rw [List.forall_mem_cons] at hx
    exact ih (h.step hx.1) hx.2

/-- After the same upserts, the rows that they name are the same. -/
theorem SameBare.others {store : ℕ} {rows rows' : Table} {os : List Tuple} (h : SameBare rows rows') :
    SameBare (upsertAll store os rows) (upsertAll store os rows') ∧
    ∀ k, (rows k = rows' k ∨ ∃ o ∈ os, o.rowKey store = k) →
      upsertAll store os rows k = upsertAll store os rows' k := by
  induction os generalizing rows rows' with
  | nil =>
    refine ⟨h, fun k hk => ?_⟩
    rcases hk with hk | ⟨o, ho, -⟩
    · exact hk
    · cases ho
  | cons o os ih =>
    have hstep : ∀ k, k = o.rowKey store → (applyOp rows (.upsert store o)).1 k =
        (applyOp rows' (.upsert store o)).1 k := by
      intro k hk
      rw [upsert_apply, upsert_apply, if_pos hk, if_pos hk]
      have hb := h k
      cases hr : rows k <;> cases hr' : rows' k <;> simp_all [bare]
    have hsame : SameBare (applyOp rows (.upsert store o)).1 (applyOp rows' (.upsert store o)).1 := by
      intro k
      by_cases hk : k = o.rowKey store
      · rw [hstep k hk]
      · rw [upsert_apply, upsert_apply, if_neg hk, if_neg hk]
        exact h k
    obtain ⟨hall, hrows⟩ := ih hsame
    refine ⟨hall, fun k hk => hrows k ?_⟩
    by_cases hko : k = o.rowKey store
    · exact .inl (hstep k hko)
    · rcases hk with hk | ⟨x, hx, hxk⟩
      · left
        rw [upsert_apply, upsert_apply, if_neg hko, if_neg hko, hk]
      · exact .inr ⟨x, (List.mem_cons.mp hx).resolve_left fun he => hko (he ▸ hxk.symm), hxk⟩

/-! ## The calls in terms of the rows -/

/-- The row is stored without an expiry. -/
def Permanent (rows : Table) (k : RowKey) : Prop := ∃ old, rows k = some old ∧ old.expiresAt = none

theorem insertAll_cons (j : Joined) (js : List Joined) (rows : Table) (touched : List RowKey) (count : ℕ)
    {t : Tuple} (h : j.row = some t) :
    env.insertAll (j :: js) rows touched count =
      if (rows (t.rowKey env.store)).isSome ∧ t.rowKey env.store ∈ touched then none
      else if (applyOp rows (.regrant env.store t)).2 then
        env.insertAll js (applyOp rows (.regrant env.store t)).1 (t.rowKey env.store :: touched) (count + 1)
      else env.insertAll js (applyOp rows (.regrant env.store t)).1 touched count := by
  simp only [Env.insertAll, h, Option.bind_eq_bind, Option.bind_some]

/-- An insert that succeeds leaves what the tuples one after the other leave. -/
theorem insertAll_eq {js : List Joined} {rows out : Table} {touched : List RowKey} {count n : ℕ}
    (h : env.insertAll js rows touched count = some (out, n)) :
    ∃ ts, js.map Joined.row = ts.map some ∧ out = regrantAll env.store ts rows := by
  induction js generalizing rows touched count with
  | nil =>
    cases h
    exact ⟨[], rfl, rfl⟩
  | cons j js ih =>
    cases hr : j.row with
    | none => simp [Env.insertAll, hr] at h
    | some t =>
      rw [insertAll_cons j js rows touched count hr] at h
      split at h
      · cases h
      · split at h <;>
        · obtain ⟨ts, hts, rfl⟩ := ih h
          exact ⟨t :: ts, by simp [hr, hts], rfl⟩

theorem Permanent.regrant {store : ℕ} {rows : Table} {k : RowKey} (h : Permanent rows k) (t : Tuple) :
    Permanent (applyOp rows (.regrant store t)).1 k := by
  obtain ⟨old, hr, hx⟩ := h
  by_cases hk : k = t.rowKey store
  · exact ⟨_, by rw [regrant_apply, if_pos hk], rfl⟩
  · exact ⟨old, by rw [regrant_apply, if_neg hk, hr], hx⟩

theorem not_permanent_of_regrant {store : ℕ} {rows : Table} {t : Tuple}
    (h : (applyOp rows (.regrant store t)).2 = true) : ¬Permanent rows (t.rowKey store) := by
  rintro ⟨old, hr, hx⟩
  simp [applyOp, TupleOp.effect, TupleOp.key, hr, hx] at h

/-- The insert succeeds if it changes no row a second time. -/
theorem insertAll_isSome {js : List Joined} {ts : List Tuple} {rows : Table} {touched : List RowKey} {count : ℕ}
    (hts : js.map Joined.row = ts.map some)
    (hd : ts.Pairwise fun t u => t.rowKey env.store = u.rowKey env.store →
      Permanent rows (t.rowKey env.store))
    (hu : ∀ t ∈ ts, t.rowKey env.store ∉ touched) : (env.insertAll js rows touched count).isSome := by
  induction js generalizing ts rows touched count with
  | nil => rfl
  | cons j js ih =>
    cases ts with
    | nil => cases hts
    | cons t ts =>
      rw [List.map_cons, List.map_cons, List.cons.injEq] at hts
      rw [List.pairwise_cons] at hd
      rw [List.forall_mem_cons] at hu
      have hd' : ts.Pairwise fun a b => a.rowKey env.store = b.rowKey env.store →
          Permanent (applyOp rows (.regrant env.store t)).1 (a.rowKey env.store) :=
        hd.2.imp fun hp he => (hp he).regrant t
      rw [insertAll_cons j js rows touched count hts.1, if_neg fun hc => hu.1 hc.2]
      split
      next hc =>
        -- the row was not permanent, so no later tuple names it
        refine ih hts.2 hd' fun u hmem hin => ?_
        rcases List.mem_cons.mp hin with he | hin
        · exact not_permanent_of_regrant hc (hd.1 u hmem he.symm)
        · exact hu.2 u hmem hin
      next => exact ih hts.2 hd' hu.2

theorem writeTuples_eq_some {rows out : Table} {tuples : List TupleInput} {n : ℕ}
    (h : env.writeTuples rows tuples = some (out, n)) :
    (∀ t ∈ tuples, env.batchAccepts t) ∧
      ∃ ts, (tuples.filterMap env.join).map Joined.row = ts.map some ∧
        out = regrantAll env.store ts rows := by
  have hsome : (env.writeTuples rows tuples).isSome := by rw [h]; rfl
  simp only [Env.writeTuples, Option.bind_eq_bind, isSome_guard_bind, List.all_eq_true] at hsome
  obtain ⟨h₁, h₂, h₃, h₄, h₅, h₆, h₇, h₈, hins⟩ := hsome
  have hbind : env.writeTuples rows tuples = env.insertAll (tuples.filterMap env.join) rows [] 0 := by
    simp only [Env.writeTuples, Option.bind_eq_bind, List.all_eq_true]
    simp only [guard, if_pos h₁, if_pos h₂, if_pos h₃, if_pos h₄, if_pos h₅, if_pos h₆, if_pos h₇, if_pos h₈,
      Option.pure_def, Option.bind_some]
  obtain ⟨ts, hts, hout⟩ := insertAll_eq (hbind.symm.trans h)
  refine ⟨fun t ht => ⟨h₁ t ht, h₂ t ht, h₃ t ht, h₄ t ht, h₅ t ht, h₆ t ht, h₇ t ht, fun j hj => ?_⟩,
    ts, hts, hout⟩
  have hmem : j ∈ tuples.filterMap env.join := List.mem_filterMap.mpr ⟨t, ht, hj⟩
  refine ⟨h₈ j hmem, ?_⟩
  obtain ⟨row, -, hrow⟩ := List.mem_map.mp (hts ▸ List.mem_map_of_mem hmem : j.row ∈ ts.map some)
  rw [← hrow]
  rfl

theorem writeTuples_isSome {rows : Table} {tuples : List TupleInput} {ts : List Tuple}
    (h : ∀ t ∈ tuples, env.batchAccepts t)
    (hts : (tuples.filterMap env.join).map Joined.row = ts.map some)
    (hd : ts.Pairwise fun t u => t.rowKey env.store = u.rowKey env.store →
      Permanent rows (t.rowKey env.store)) : (env.writeTuples rows tuples).isSome := by
  simp only [Env.writeTuples, Option.bind_eq_bind, isSome_guard_bind, List.all_eq_true]
  refine ⟨fun t ht => (h t ht).1, fun t ht => (h t ht).2.1, fun t ht => (h t ht).2.2.1,
    fun t ht => (h t ht).2.2.2.1, fun t ht => (h t ht).2.2.2.2.1, fun t ht => (h t ht).2.2.2.2.2.1,
    fun t ht => (h t ht).2.2.2.2.2.2.1, fun j hj => ?_, insertAll_isSome hts hd (by simp)⟩
  obtain ⟨t, ht, hjoin⟩ := List.mem_filterMap.mp hj
  exact ((h t ht).2.2.2.2.2.2.2 j hjoin).1

/-- The row that `write_tuple` writes for an element. -/
def Env.elementRow (env : Env) : Element → Option Tuple
  | .object t condition context expiresAt =>
    (orNull expiresAt env.timestamptz).bind (env.rowOf t condition context)
  | .other => none

theorem single_eq (rows : Table) (e : Element) :
    env.single rows e = (env.elementRow e).map fun row => applyOp rows (.upsert env.store row) := by
  cases e with
  | other => rfl
  | object t condition context expiresAt =>
    simp only [Env.single, Env.elementRow, Env.writeTuple, Option.bind_eq_bind, Option.map_bind]
    rfl

theorem isSome_single {rows : Table} {e : Element} :
    (env.single rows e).isSome = (env.elementRow e).isSome := by
  rw [single_eq, Option.isSome_map]

theorem oneByOne_eq {es : List Element} {ss : List Tuple} {rows : Table}
    (h : es.map env.elementRow = ss.map some) :
    env.oneByOne es rows = some (upsertAll env.store ss rows) := by
  induction es generalizing ss rows with
  | nil =>
    cases ss with
    | nil => rfl
    | cons s ss => cases h
  | cons e es ih =>
    cases ss with
    | nil => cases h
    | cons s ss =>
      rw [List.map_cons, List.map_cons, List.cons.injEq] at h
      simp only [Env.oneByOne, single_eq, h.1, Option.bind_eq_bind, Option.map_some, Option.bind_some]
      exact ih h.2

theorem writeOthers_eq {es : List Element} {ss : List Tuple} {rows : Table} {count : ℕ}
    (h : es.map env.elementRow = ss.map some) :
    ∃ n, env.writeOthers es rows count = some (upsertAll env.store ss rows, n) := by
  induction es generalizing ss rows count with
  | nil =>
    cases ss with
    | nil => exact ⟨count, rfl⟩
    | cons s ss => cases h
  | cons e es ih =>
    cases ss with
    | nil => cases h
    | cons s ss =>
      rw [List.map_cons, List.map_cons, List.cons.injEq] at h
      simp only [Env.writeOthers, single_eq, h.1, Option.bind_eq_bind, Option.map_some, Option.bind_some]
      exact ih h.2

theorem writeOthers_accepts {es : List Element} {rows : Table} {count : ℕ}
    (h : (env.writeOthers es rows count).isSome) : ∀ e ∈ es, (env.elementRow e).isSome := by
  induction es generalizing rows count with
  | nil => simp
  | cons e es ih =>
    rw [Option.isSome_iff_exists] at h
    obtain ⟨out, h⟩ := h
    simp only [Env.writeOthers, Option.bind_eq_bind] at h
    obtain ⟨⟨rows', changed⟩, he, h⟩ := Option.bind_eq_some_iff.mp h
    rw [List.forall_mem_cons]
    exact ⟨by rw [← @isSome_single env rows, he]; rfl, ih (by rw [h]; rfl)⟩

theorem exists_rows {es : List Element} (h : ∀ e ∈ es, (env.elementRow e).isSome) :
    ∃ ss : List Tuple, es.map env.elementRow = ss.map some := by
  induction es with
  | nil => exact ⟨[], rfl⟩
  | cons e es ih =>
    rw [List.forall_mem_cons] at h
    obtain ⟨s, hs⟩ := Option.isSome_iff_exists.mp h.1
    obtain ⟨ss, hss⟩ := ih h.2
    exact ⟨s :: ss, by simp [hs, hss]⟩

theorem keyOf_of_elementRow {e : Element} {s : Tuple} (h : env.elementRow e = some s) :
    env.keyOf e.input = some (s.rowKey env.store) := by
  cases e with
  | other => cases h
  | object t condition context expiresAt =>
    obtain ⟨x, -, hrow⟩ := Option.bind_eq_some_iff.mp h
    exact keyOf_of_rowOf hrow

theorem keys_eq {es : List Element} {ss : List Tuple} (h : es.map env.elementRow = ss.map some) :
    (es.map Element.input).map env.keyOf = ss.map fun s => some (s.rowKey env.store) := by
  induction es generalizing ss with
  | nil =>
    cases ss with
    | nil => rfl
    | cons s ss => cases h
  | cons e es ih =>
    cases ss with
    | nil => cases h
    | cons s ss =>
      rw [List.map_cons, List.map_cons, List.cons.injEq] at h
      simp [keyOf_of_elementRow h.1, ← ih h.2]

/-- The rows of plain elements, and what the joins make of them. -/
theorem plain_rows {ps : List Element} {ss : List Tuple} (hp : ∀ e ∈ ps, e.isPlain)
    (h : ps.map env.elementRow = ss.map some) :
    ((ps.map Element.input).filterMap env.join).map Joined.row = (ss.map bare).map some ∧
      ∀ s ∈ ss, s.expiresAt = none := by
  induction ps generalizing ss with
  | nil =>
    cases ss with
    | nil => simp
    | cons s ss => cases h
  | cons e ps ih =>
    cases ss with
    | nil => cases h
    | cons s ss =>
      rw [List.map_cons, List.map_cons, List.cons.injEq] at h
      rw [List.forall_mem_cons] at hp
      obtain ⟨ih₁, ih₂⟩ := ih hp.2 h.2
      cases e with
      | other => cases h.1
      | object t condition context expiresAt =>
        have hplain := hp.1
        simp only [Element.isPlain, Bool.and_eq_true, Option.isNone_iff_eq_none] at hplain
        obtain ⟨rfl, rfl⟩ := hplain
        obtain ⟨⟨j, hj, hrow⟩, -, -, hx⟩ := rowOf_eq (h.1 : env.rowOf t none context none = some s)
        refine ⟨?_, List.forall_mem_cons.mpr ⟨hx, ih₂⟩⟩
        rw [List.map_cons, Element.input, List.filterMap_cons_some hj, List.map_cons, ih₁, hrow]
        simp [bare, hx]

/-- Plain elements pass the joins if `write_tuple` accepts them. -/
theorem plain_accepts {e : Element} (hp : e.isPlain) (hn : e.input.Named) :
    env.batchAccepts e.input ↔ (env.elementRow e).isSome := by
  cases e with
  | other => exact absurd hn.1 (by simp [Element.input])
  | object t condition context expiresAt =>
    simp only [Element.isPlain, Bool.and_eq_true, Option.isNone_iff_eq_none] at hp
    obtain ⟨rfl, rfl⟩ := hp
    exact batchAccepts_iff hn context

theorem exists_key_iff {es : List Element} {ss : List Tuple} (h : es.map env.elementRow = ss.map some)
    (k : RowKey) :
    (∃ t ∈ es.map Element.input, env.keyOf t = some k) ↔ ∃ s ∈ ss, s.rowKey env.store = k := by
  have hk : some k ∈ (es.map Element.input).map env.keyOf ↔
      some k ∈ ss.map fun s => some (s.rowKey env.store) := by rw [keys_eq h]
  simpa only [List.mem_map, Option.some.injEq] using hk

/-- The rows of distinct tuples. -/
theorem Env.Distinct.rows {rows : Table} {es : List Element} {ss : List Tuple}
    (hd : env.Distinct rows (es.map Element.input)) (h : es.map env.elementRow = ss.map some) :
    (ss.map bare).Pairwise fun t u => t.rowKey env.store = u.rowKey env.store →
      Permanent rows (t.rowKey env.store) := by
  have hkeys : ((es.map Element.input).map env.keyOf).Pairwise fun a b =>
      ∀ k, a = some k → b = some k → Permanent rows k := List.pairwise_map.mpr hd
  rw [keys_eq h, List.pairwise_map] at hkeys
  rw [List.pairwise_map]
  exact hkeys.imp fun hp he => hp _ rfl (congrArg some he.symm)

theorem sameGrants {rows : Table} {ps os : List Element} {ss us : List Tuple}
    (hps : ps.map env.elementRow = ss.map some) (hos : os.map env.elementRow = us.map some)
    (hx : ∀ s ∈ ss, s.expiresAt = none) :
    SameGrants env rows (upsertAll env.store us (regrantAll env.store (ss.map bare) rows))
      (upsertAll env.store us (upsertAll env.store ss rows)) (ps.map Element.input) (os.map Element.input) := by
  have hplain : SameBare (regrantAll env.store (ss.map bare) rows) (upsertAll env.store ss rows) :=
    SameBare.plain (fun _ => rfl) hx
  obtain ⟨hbare, hrows⟩ := @SameBare.others env.store _ _ us hplain
  have hmem : ∀ k, (∃ t ∈ ss.map bare, t.rowKey env.store = k) ↔ ∃ s ∈ ss, s.rowKey env.store = k := by
    intro k
    simp only [List.mem_map, exists_exists_and_eq_and]
    rfl
  have hothers : ∀ {k}, (∀ u ∈ os.map Element.input, env.keyOf u ≠ some k) →
      ∀ u ∈ us, u.rowKey env.store ≠ k := by
    intro k hno u hu he
    obtain ⟨t, ht, htk⟩ := (exists_key_iff hos k).mpr ⟨u, hu, he⟩
    exact hno t ht htk
  refine ⟨hbare, fun k hk => hrows k ?_, ?_, ?_⟩
  · rcases hk with hk | hk
    · left
      have hno : ¬∃ s ∈ ss, s.rowKey env.store = k := fun hs => by
        obtain ⟨t, ht, htk⟩ := (exists_key_iff hps k).mpr hs
        exact hk t ht htk
      have hno' := mt (hmem k).mp hno
      push Not at hno hno'
      rw [regrantAll_of_notMem hno', upsertAll_of_notMem hno]
    · exact .inr ((exists_key_iff hos k).mp hk)
  · intro t ht k htk hno old hold
    rw [upsertAll_of_notMem (hothers hno), regrantAll_stored hold,
      if_pos ((hmem k).mpr ((exists_key_iff hps k).mp ⟨t, ht, htk⟩))]
  · intro t ht k htk hno hnew
    rw [upsertAll_of_notMem (hothers hno)]
    exact regrantAll_new ((hmem k).mpr ((exists_key_iff hps k).mp ⟨t, ht, htk⟩)) hnew

/-- The batch accepts the plain elements that `write_tuple` accepts. -/
theorem writeTuples_accepts {rows : Table} {ps : List Element} (hp : ∀ e ∈ ps, e.isPlain)
    (hn : ∀ e ∈ ps, e.input.Named) (hd : env.Distinct rows (ps.map Element.input)) :
    (env.writeTuples rows (ps.map Element.input)).isSome ↔ ∀ e ∈ ps, (env.elementRow e).isSome := by
  constructor
  · intro h e he
    obtain ⟨⟨out, n⟩, h⟩ := Option.isSome_iff_exists.mp h
    exact (plain_accepts (hp e he) (hn e he)).mp
      ((writeTuples_eq_some h).1 _ (List.mem_map_of_mem he))
  · intro h
    obtain ⟨ss, hss⟩ := exists_rows h
    refine writeTuples_isSome ?_ (plain_rows hp hss).1 (hd.rows hss)
    intro t ht
    obtain ⟨e, he, rfl⟩ := List.mem_map.mp ht
    exact (plain_accepts (hp e he) (hn e he)).mpr (h e he)

theorem writeTuples_rows {rows out : Table} {ps : List Element} {n : ℕ} (hp : ∀ e ∈ ps, e.isPlain)
    (hn : ∀ e ∈ ps, e.input.Named) (h : env.writeTuples rows (ps.map Element.input) = some (out, n)) :
    ∃ ss : List Tuple, ps.map env.elementRow = ss.map some ∧ out = regrantAll env.store (ss.map bare) rows ∧
      ∀ s ∈ ss, s.expiresAt = none := by
  obtain ⟨haccepts, ts, hts, rfl⟩ := writeTuples_eq_some h
  obtain ⟨ss, hss⟩ := exists_rows fun e he => (plain_accepts (hp e he) (hn e he)).mp
    (haccepts _ (List.mem_map_of_mem he))
  obtain ⟨hjoin, hx⟩ := plain_rows hp hss
  refine ⟨ss, hss, ?_, hx⟩
  rw [List.map_injective_iff.mpr (Option.some_injective _) (hts.symm.trans hjoin)]

theorem Element.named_of_valid {e : Element} (h : e.valid) : e.input.Named := by
  cases e with
  | other => cases h
  | object t condition context expiresAt =>
    simp only [Element.valid, Bool.and_eq_true] at h
    exact ⟨h.1.1.1.1, h.1.1.2, h.1.2⟩

/-- What `write_tuple` accepts has the required keys. -/
theorem valid_of_elementRow {e : Element} (h : (env.elementRow e).isSome) : e.valid := by
  obtain ⟨row, h⟩ := Option.isSome_iff_exists.mp h
  cases e with
  | other => cases h
  | object t condition context expiresAt =>
    obtain ⟨x, -, hrow⟩ := Option.bind_eq_some_iff.mp h
    obtain ⟨⟨j, hj, hids⟩, -⟩ := rowOf_eq hrow
    simp only [Env.join, Option.bind_eq_bind, Option.bind_eq_some_iff] at hj
    obtain ⟨ut, ⟨_, hut, -⟩, r, ⟨_, hr, -⟩, ot, ⟨_, hot, -⟩, hj⟩ := hj
    cases hj
    simp only [Joined.row, Option.bind_eq_bind, Option.bind_eq_some_iff] at hids
    obtain ⟨ui, hui, oi, hoi, -⟩ := hids
    simp [Element.valid, hut, hr, hot, hui, hoi]

theorem forall_split {elements : List Element} :
    (∀ e ∈ elements, (env.elementRow e).isSome) ↔
      (∀ e ∈ elements.filter Element.isPlain, (env.elementRow e).isSome) ∧
      ∀ e ∈ elements.filter (fun e => !e.isPlain), (env.elementRow e).isSome := by
  constructor
  · intro h
    exact ⟨fun e he => h e (List.mem_of_mem_filter he), fun e he => h e (List.mem_of_mem_filter he)⟩
  · intro h e he
    by_cases hp : e.isPlain
    · exact h.1 e (List.mem_filter.mpr ⟨he, hp⟩)
    · exact h.2 e (List.mem_filter.mpr ⟨he, by simp [hp]⟩)

theorem writeTuplesJsonb_cases {rows : Table} {elements : List Element} {out : Table × ℕ}
    (h : env.writeTuplesJsonb rows elements = some out) :
    (∀ e ∈ elements, e.valid) ∧ ∃ mid m,
      env.writeTuples rows ((elements.filter Element.isPlain).map Element.input) = some (mid, m) ∧
      env.writeOthers (elements.filter fun e => !e.isPlain) mid m = some out := by
  simp only [Env.writeTuplesJsonb, Option.bind_eq_bind] at h
  obtain ⟨u, hvalid, h⟩ := Option.bind_eq_some_iff.mp h
  obtain ⟨⟨mid, m⟩, hmid, h⟩ := Option.bind_eq_some_iff.mp h
  refine ⟨?_, mid, m, hmid, h⟩
  by_contra hc
  rw [← List.all_eq_true] at hc
  rw [guard, if_neg hc] at hvalid
  cases hvalid

/-- One store is unique. -/
theorem docStore_unique : ∀ a ∈ [(1, "docs")], ∀ b ∈ [(1, "docs")], a.1 = b.1 → a = b := by decide

/-- A store where users may view documents, and a condition without required keys. -/
def docStore : Env where
  catalog := {
    stores := [(1, "docs")]
    types := [⟨1, 1, "user"⟩, ⟨2, 1, "doc"⟩]
    relations := [⟨1, 1, "viewer"⟩]
    conditions := [⟨1, 1, "office_hours"⟩]
    store_unique := docStore_unique
    type_unique := by decide }
  store := 1
  start := 0
  canWrite := fun _ => true
  models := []
  restrictions := []
  required := fun _ => []
  timestamptz := fun _ => some 100

/-- `('user','alice',NULL,'viewer','doc','plan')` -/
def aliceViews : TupleInput := ⟨some "user", some "alice", none, some "viewer", some "doc", some "plan"⟩

/-- The row of the tuple. -/
def aliceRow (conditionId : Option ℕ) (expiresAt : Option ℤ) : Tuple :=
  ⟨1, "alice", none, 1, 2, "plan", conditionId, none, expiresAt⟩

/-- The tuple is stored with the condition. -/
def conditional : Table :=
  Function.update (fun _ => none) ((aliceRow none none).rowKey 1) (some (aliceRow (some 1) none))

end PgAuthz.BatchWrites
