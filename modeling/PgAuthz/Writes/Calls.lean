import Mathlib
import PgAuthz.Audit.Trail
import PgAuthz.Transition.Locking

/-!
# Checked writes and sharing

The calls `write_tuples_checked`, `grant`, `revoke` and `apply_grants` as programs of statements.
Each of them takes the lock of its store and the locks of objects, decides whether it may write, and
writes. The checks that can only refuse a call (namespaces, type restrictions, caps and floors) are
aborts.

## Main definitions

* `Catalog`, `JsonElement`: the names of a store, and an element of a `jsonb` array
* `preconditionMatches`: `_precondition_matches`
* `CheckedStmt`: a statement of the calls
* `writeTuplesChecked`, `grantRuleCheck`, `grant`, `revoke`, `applyGrants`: the programs
* `CheckedStmt.exec`, `checkedSystem`: what the statements do, and the system of the calls

## Main results

* `changesOf_congr`, `preconditionMatches_congr`: which rows a statement depends on
-/

namespace PgAuthz

open Locking

/-! ## Names -/

/-- A row of a table of names. -/
structure NameRow where
  id : ℕ
  storeId : ℕ
  name : String
deriving DecidableEq, Repr

/-- The id of a name in a store, by the unique index of the table. -/
def resolveName (rows : List NameRow) (store : ℕ) (name : String) : Option ℕ :=
  (rows.find? fun r => r.storeId = store ∧ r.name = name).map NameRow.id

/-- The live stores and the names of their types, relations and conditions. The ids of stores and
types are primary keys. -/
structure Catalog where
  stores : List (ℕ × String)
  types : List NameRow
  relations : List NameRow
  conditions : List NameRow
  store_unique : ∀ a ∈ stores, ∀ b ∈ stores, a.1 = b.1 → a = b
  type_unique : ∀ a ∈ types, ∀ b ∈ types, a.id = b.id → a = b

/-- `_s`. -/
def Catalog.s (c : Catalog) (name : String) : Option ℕ :=
  (c.stores.find? fun r => r.2 = name).map Prod.fst

/-- `_t`. -/
def Catalog.t (c : Catalog) (store : ℕ) (name : String) : Option ℕ := resolveName c.types store name

/-- `_r`. -/
def Catalog.r (c : Catalog) (store : ℕ) (name : String) : Option ℕ :=
  resolveName c.relations store name

theorem resolveName_eq_some {rows : List NameRow} {store id : ℕ} {name : String}
    (h : resolveName rows store name = some id) : ⟨id, store, name⟩ ∈ rows := by
  obtain ⟨r, hr, rfl⟩ := Option.map_eq_some_iff.mp h
  have hname := List.find?_some hr
  simp only [decide_eq_true_eq] at hname
  obtain ⟨rfl, rfl⟩ := hname
  exact List.mem_of_find?_eq_some hr

/-- A store has one name. -/
theorem Catalog.s_inj (c : Catalog) {name name' : String} {id : ℕ} (h : c.s name = some id)
    (h' : c.s name' = some id) : name = name' := by
  obtain ⟨a, ha, rfl⟩ := Option.map_eq_some_iff.mp h
  obtain ⟨b, hb, hid⟩ := Option.map_eq_some_iff.mp h'
  have hab := c.store_unique b (List.mem_of_find?_eq_some hb) a (List.mem_of_find?_eq_some ha) hid
  have ha' := List.find?_some ha
  have hb' := List.find?_some hb
  simp only [decide_eq_true_eq] at ha' hb'
  rw [← ha', ← hb', hab]

/-- A type has one name. -/
theorem Catalog.t_inj (c : Catalog) {store id : ℕ} {name name' : String}
    (h : c.t store name = some id) (h' : c.t store name' = some id) : name = name' := by
  have hrow := c.type_unique _ (resolveName_eq_some h) _ (resolveName_eq_some h') rfl
  exact (NameRow.mk.inj hrow).2.2

/-! ## Arguments -/

/-- An element of a `jsonb` array: an object with the texts of its values, `none` for a JSON null, or
another value, of which only the strings in it count as keys. -/
inductive JsonElement
  | object (fields : List (String × Option String))
  | other (strings : List String)
deriving DecidableEq, Repr

/-- The key test `e ? k`. -/
def JsonElement.hasKey : JsonElement → String → Bool
  | object fields, k => fields.any fun f => f.1 = k
  | other strings, k => strings.contains k

/-- The text `e ->> k`, `none` for a missing key and for a JSON null. -/
def JsonElement.text : JsonElement → String → Option String
  | object fields, k => (fields.find? fun f => f.1 = k).bind Prod.snd
  | other _, _ => none

theorem JsonElement.hasKey_of_text {e : JsonElement} {k v : String} (h : e.text k = some v) :
    e.hasKey k = true := by
  cases e with
  | object fields =>
    obtain ⟨f, hf, -⟩ := Option.bind_eq_some_iff.mp h
    have hk := List.find?_some hf
    exact List.any_eq_true.mpr ⟨f, List.mem_of_find?_eq_some hf, hk⟩
  | other strings => cases h

/-- What a precondition asks (`match`). -/
inductive MatchKind
  | mustExist
  | mustBeAbsent
  | allowed
  | denied
deriving DecidableEq, Repr

/-- `coalesce(e->>'match', 'exists')`; another text is an error. -/
def JsonElement.matchKind (e : JsonElement) : Option MatchKind :=
  match (e.text "match").getD "exists" with
  | "exists" => some .mustExist
  | "absent" => some .mustBeAbsent
  | "allowed" => some .allowed
  | "denied" => some .denied
  | _ => none

/-- A precondition on stored tuples. -/
def JsonElement.isStored (e : JsonElement) : Bool :=
  e.matchKind = some .mustExist || e.matchKind = some .mustBeAbsent

/-- The rows of `authz.tuples` by their unique key. -/
abbrev Rows := Finmap fun _ : RowKey => Tuple

/-- A row of `authz.grant_rules`. -/
structure GrantRule where
  storeId : ℕ
  objectType : ℕ
  relation : ℕ
  required : ℕ
  requiredRevoke : Option ℕ
deriving DecidableEq, Repr

/-- The arguments of `_decide`. -/
structure DecideArgs where
  userType : ℕ
  userId : String
  relation : ℕ
  objectType : ℕ
  objectId : Option String
  context : Option Context
deriving DecidableEq, Repr

/-- What the calls read besides the tuples: the names, the grant rules, the hash of an advisory
lock's text, the casts of a text to an instant and to a `jsonb` object, and the decisions of the
engine on a state of the tuples, `none` where it raises. -/
structure CheckedEnv where
  catalog : Catalog
  grantRules : List GrantRule
  hashtextextended : String → ℤ
  timestamptz : String → Option ℤ
  jsonObject : String → Option Context
  decide : (now : ℤ) → (store : ℕ) → Rows → DecideArgs → Option Bool

/-! ## Statements -/

/-- The text of the lock of a store. -/
def storeLock (store : String) : String := store ++ ":*"

/-- The text of the lock of an object, `none` for a `NULL`. -/
def objectLock (store : String) (object : Option String × Option String) : Option String :=
  object.1.bind fun objectType => object.2.map fun objectId =>
    store ++ ":" ++ objectType ++ ":" ++ objectId

/-- A statement of a call: an advisory lock, a check of the arguments, a precondition of a store at
the statement time, a decision of `_grant_rule_check`, and writes of rows. -/
inductive CheckedStmt
  | lock (text : Option String) (mode : Mode)
  | require (ok : Bool)
  | precondition (store : ℕ) (now : ℤ) (pc : JsonElement)
  | decision (store : ℕ) (now : ℤ) (q : DecideArgs)
  | write (now : ℤ) (ops : List TupleOp)

/-- What a text stands for, or `NULL` if there is none; it raises if the text stands for nothing. -/
def orNull {α : Type} (text : Option String) (f : String → Option α) : Option (Option α) :=
  match text with
  | none => some none
  | some s => (f s).map some

/-- The tuple that an element names, unless a required key is missing or a name is unknown. -/
def tupleInput (c : Catalog) (store : ℕ) (e : JsonElement) : Option Tuple := do
  let userType ← (e.text "user_type").bind (c.t store)
  let userId ← e.text "user_id"
  let relation ← (e.text "relation").bind (c.r store)
  let objectType ← (e.text "object_type").bind (c.t store)
  let objectId ← e.text "object_id"
  let userRelation ← orNull (e.text "user_relation") (c.r store)
  return ⟨userType, userId, userRelation, relation, objectType, objectId, none, none, none⟩

/-- The delete of an element in `_delete_tuples_impl`. -/
def deleteOp (c : Catalog) (store : ℕ) (e : JsonElement) : Option TupleOp :=
  (tupleInput c store e).map fun t => .delete (t.rowKey store)

/-- The insert of a plain element in `write_tuples`. -/
def batchOp (c : Catalog) (store : ℕ) (e : JsonElement) : Option TupleOp :=
  (tupleInput c store e).map (.regrant store)

/-- The upsert of `write_tuple` with the condition, its context and the expiry of an element. -/
def upsertOp (env : CheckedEnv) (store : ℕ) (e : JsonElement) : Option TupleOp := do
  let t ← tupleInput env.catalog store e
  let conditionId ← orNull (e.text "condition") (resolveName env.catalog.conditions store)
  let expiresAt ← orNull (e.text "expires_at") env.timestamptz
  let conditionContext := (e.text "condition_context").bind env.jsonObject
  return .upsert store { t with
    conditionId := conditionId, conditionContext := conditionContext, expiresAt := expiresAt }

/-- One statement that writes rows, unless one of its elements is refused. -/
def writeAll (now : ℤ) (ops : List (Option TupleOp)) : List CheckedStmt :=
  [.require (ops.all Option.isSome), .write now (ops.filterMap id)]

/-! ## write_tuples_checked -/

/-- Some precondition on stored tuples lacks the key of the object or of its type. -/
def partialPrecondition (preconditions : Option (List JsonElement)) : Bool :=
  (preconditions.getD []).any fun e =>
    e.isStored && !(e.hasKey "object_id" && e.hasKey "object_type")

/-- The order of texts with nulls last. -/
def nullsLast : Option String → Option String → Bool
  | _, none => true
  | none, some _ => false
  | some a, some b => a ≤ b

/-- `SELECT DISTINCT e->>'object_type', e->>'object_id' … ORDER BY 1, 2`. -/
def distinctObjects (elements : List JsonElement) : List (Option String × Option String) :=
  (elements.map fun e => (e.text "object_type", e.text "object_id")).dedup.insertionSort fun a b =>
    if a.1 = b.1 then nullsLast a.2 b.2 = true else nullsLast a.1 b.1 = true

/-- The objects that `write_tuples_checked` locks: those of the elements with both keys. The
concatenation of the arrays is `NULL` if one of them is. -/
def lockedObjects (preconditions deletes writes : Option (List JsonElement)) :
    List (Option String × Option String) :=
  let elements := preconditions.bind fun p => deletes.bind fun d => writes.map fun w => p ++ d ++ w
  distinctObjects ((elements.getD []).filter fun e => e.hasKey "object_id" && e.hasKey "object_type")

/-- The elements that `write_tuples_jsonb` writes as a batch. -/
def JsonElement.isPlain (e : JsonElement) : Bool :=
  e.text "condition" = none && e.text "expires_at" = none

/-- `write_tuples_jsonb`: the plain elements in one statement, then the others. -/
def writeTuplesJsonb (env : CheckedEnv) (now : ℤ) (store : ℕ) (tuples : List JsonElement) :
    List CheckedStmt :=
  writeAll now ((tuples.filter JsonElement.isPlain).map (batchOp env.catalog store)) ++
    (tuples.filter fun e => !e.isPlain).flatMap fun e => writeAll now [upsertOp env store e]

/-- The lock statements of a call. -/
def lockStmts (store : String) (mode : Mode) (objects : List (Option String × Option String)) :
    List CheckedStmt :=
  .lock (some (storeLock store)) mode ::
    objects.map fun o => .lock (objectLock store o) .exclusive

/-- `write_tuples_checked`. -/
def writeTuplesChecked (env : CheckedEnv) (now : ℤ) (store : String)
    (preconditions deletes writes : Option (List JsonElement)) : List CheckedStmt :=
  match env.catalog.s store with
  | none => [.require false]
  | some id =>
    lockStmts store (if partialPrecondition preconditions then .exclusive else .shared)
        (lockedObjects preconditions deletes writes) ++
      ((preconditions.getD []).map (.precondition id now) ++
        (writeAll now ((deletes.getD []).map (deleteOp env.catalog id)) ++
          writeTuplesJsonb env now id (writes.getD [])))

/-! ## grant, revoke and apply_grants -/

/-- The decision that `_grant_rule_check` takes for an entry, unless there is no rule for it. -/
def grantDecision (env : CheckedEnv) (store : ℕ) (actorType actorId : String) (e : JsonElement)
    (isRevoke : Bool) (context : Option Context) : Option DecideArgs := do
  let objectType ← (e.text "object_type").bind (env.catalog.t store)
  let relation ← (e.text "relation").bind (env.catalog.r store)
  if e.text "object_id" = some wildcard then none
  let rule ← env.grantRules.find? fun g =>
    g.storeId = store ∧ g.objectType = objectType ∧ g.relation = relation
  let userType ← env.catalog.t store actorType
  let required := if isRevoke then rule.requiredRevoke.getD rule.required else rule.required
  return ⟨userType, actorId, required, objectType, e.text "object_id", context⟩

/-- `_grant_rule_check`. -/
def grantRuleCheck (env : CheckedEnv) (now : ℤ) (store : String) (id : ℕ)
    (actorType actorId : String) (e : JsonElement) (isRevoke : Bool) (context : Option Context) :
    List CheckedStmt :=
  match grantDecision env id actorType actorId e isRevoke context with
  | none => [.require false]
  | some q =>
    lockStmts store .shared [(e.text "object_type", e.text "object_id")] ++ [.decision id now q]

/-- The delete of `_delete_tuple_impl`: a `NULL` id is equal to no id. -/
def revokeStmts (c : Catalog) (now : ℤ) (store : ℕ) (e : JsonElement) : List CheckedStmt :=
  if e.text "user_id" = none ∨ e.text "object_id" = none then []
  else writeAll now [deleteOp c store e]

/-- `grant`; its parameters are the fields of an entry of `apply_grants`. -/
def grant (env : CheckedEnv) (now : ℤ) (store : String) (actorType actorId : String)
    (e : JsonElement) (context : Option Context) : List CheckedStmt :=
  match env.catalog.s store with
  | none => [.require false]
  | some id =>
    grantRuleCheck env now store id actorType actorId e false context ++
      writeAll now [upsertOp env id e]

/-- `revoke`. -/
def revoke (env : CheckedEnv) (now : ℤ) (store : String) (actorType actorId : String)
    (e : JsonElement) (context : Option Context) : List CheckedStmt :=
  match env.catalog.s store with
  | none => [.require false]
  | some id =>
    grantRuleCheck env now store id actorType actorId e true context ++
      revokeStmts env.catalog now id e

/-- The context of an entry, or else the one of the batch. -/
def entryContext (env : CheckedEnv) (e : JsonElement) (context : Option Context) : Option Context :=
  ((e.text "context").bind env.jsonObject).or context

/-- `apply_grants`: all entries are decided before the first one is written. -/
def applyGrants (env : CheckedEnv) (now : ℤ) (store : String) (actorType actorId : String)
    (grants revokes : Option (List JsonElement)) (context : Option Context) : List CheckedStmt :=
  match env.catalog.s store with
  | none => [.require false]
  | some id =>
    let elements := grants.bind fun g => revokes.map fun r => g ++ r
    let check (isRevoke : Bool) (e : JsonElement) : List CheckedStmt :=
      grantRuleCheck env now store id actorType actorId e isRevoke (entryContext env e context)
    (lockStmts store .shared (distinctObjects (elements.getD [])) ++
      ((revokes.getD []).flatMap (check true) ++ (grants.getD []).flatMap (check false))) ++
    ((revokes.getD []).flatMap (revokeStmts env.catalog now id) ++
      (grants.getD []).flatMap fun e => writeAll now [upsertOp env id e])

/-! ## What the statements do -/

/-- A key fits the filter of a precondition: only the texts that are given constrain it. -/
def JsonElement.fits (c : Catalog) (store : ℕ) (pc : JsonElement) (k : RowKey) : Bool :=
  k.storeId = store &&
    (pc.text "object_type").all (fun name => c.t store name = some k.objectType) &&
    (pc.text "object_id").all (fun id => k.objectId = id) &&
    (pc.text "relation").all (fun name => c.r store name = some k.relation) &&
    (pc.text "user_type").all (fun name => c.t store name = some k.userType) &&
    (pc.text "user_id").all (fun id => k.userId = id) &&
    (pc.text "user_relation").all (fun name => c.r store name = some k.userRelation)

/-- `_precondition_matches` at a statement time. -/
def preconditionMatches (c : Catalog) (store : ℕ) (now : ℤ) (T : Rows) (pc : JsonElement) : Bool :=
  decide (∃ k ∈ T.keys, pc.fits c store k = true ∧ (T.lookup k).any (Tuple.visibleAt now) = true)

/-- The decision of an `allowed` or a `denied` precondition, unless it raises. -/
def accessPrecondition (env : CheckedEnv) (store : ℕ) (now : ℤ) (T : Rows) (pc : JsonElement) :
    Option Bool := do
  let userType ← (pc.text "user_type").bind (env.catalog.t store)
  let userId ← pc.text "user_id"
  let relation ← (pc.text "relation").bind (env.catalog.r store)
  let objectType ← (pc.text "object_type").bind (env.catalog.t store)
  let objectId ← pc.text "object_id"
  let context ← orNull (pc.text "context") env.jsonObject
  env.decide now store T ⟨userType, userId, relation, objectType, some objectId, context⟩

/-- The call goes on after a precondition. -/
def preconditionPasses (env : CheckedEnv) (store : ℕ) (now : ℤ) (T : Rows) (pc : JsonElement) :
    Bool :=
  match pc.matchKind with
  | none => false
  | some .mustExist => preconditionMatches env.catalog store now T pc
  | some .mustBeAbsent => !preconditionMatches env.catalog store now T pc
  | some .allowed => accessPrecondition env store now T pc = some true
  | some .denied => accessPrecondition env store now T pc = some false

/-- The rows as a table with a tuple or none at each key. -/
def rowsTable : KeyedTable Rows RowKey (Option Tuple) where
  lookup T k := T.lookup k
  put T c := match c.2 with
    | none => T.erase c.1
    | some t => T.insert c.1 t
  lookup_put_self T k v := by
    cases v with
    | none => exact Finmap.lookup_erase k T
    | some t => exact Finmap.lookup_insert T
  lookup_put_of_ne T k v k' hk := by
    cases v with
    | none => exact Finmap.lookup_erase_ne hk
    | some t => exact Finmap.lookup_insert_of_ne T hk

/-- The changes of one statement at a statement time, row by row. -/
def changesOf (now : ℤ) : List TupleOp → Rows → List (RowKey × Option Tuple)
  | [], _ => []
  | op :: ops, T =>
    match op.effect now now (T.lookup op.key) with
    | none => changesOf now ops T
    | some (_, new) => (op.key, new) :: changesOf now ops (rowsTable.put T (op.key, new))

/-- The changes that a statement makes to the rows it sees, unless it raises. -/
def CheckedStmt.exec (env : CheckedEnv) : CheckedStmt → Rows → Option (List (RowKey × Option Tuple))
  | lock _ _, _ => some []
  | require ok, _ => if ok then some [] else none
  | precondition store now pc, T => if preconditionPasses env store now T pc then some [] else none
  | decision store now q, T => if env.decide now store T q = some true then some [] else none
  | write now ops, T => some (changesOf now ops T)

/-- The advisory lock that a statement takes; the lock of a `NULL` is none. -/
def CheckedStmt.locks (env : CheckedEnv) : CheckedStmt → List (ℤ × Mode)
  | lock (some text) mode => [(env.hashtextextended text, mode)]
  | _ => []

/-! ## Calls -/

/-- A call with its arguments; an argument is `none` for a `NULL`. -/
inductive Call
  | writeTuplesChecked (store : String) (preconditions deletes writes : Option (List JsonElement))
  | grant (store actorType actorId : String) (entry : JsonElement) (context : Option Context)
  | revoke (store actorType actorId : String) (entry : JsonElement) (context : Option Context)
  | applyGrants (store actorType actorId : String) (grants revokes : Option (List JsonElement))
    (context : Option Context)
deriving DecidableEq, Repr

/-- A call and the time of its statement. -/
structure TimedCall where
  now : ℤ
  call : Call
deriving DecidableEq, Repr

/-- The statements of a call. -/
def TimedCall.program (env : CheckedEnv) (r : TimedCall) : List CheckedStmt :=
  match r.call with
  | .writeTuplesChecked store preconditions deletes writes =>
    PgAuthz.writeTuplesChecked env r.now store preconditions deletes writes
  | .grant store actorType actorId entry context =>
    PgAuthz.grant env r.now store actorType actorId entry context
  | .revoke store actorType actorId entry context =>
    PgAuthz.revoke env r.now store actorType actorId entry context
  | .applyGrants store actorType actorId grants revokes context =>
    PgAuthz.applyGrants env r.now store actorType actorId grants revokes context

/-- Transactions that make such calls. -/
def checkedSystem (env : CheckedEnv) :
    System ℤ RowKey (Option Tuple) Rows CheckedStmt TimedCall where
  table := rowsTable
  program := TimedCall.program env
  locks := CheckedStmt.locks env
  exec := CheckedStmt.exec env

/-! ## Which rows a statement depends on -/

/-- The answer depends on the rows that fit the filter. -/
theorem preconditionMatches_congr {c : Catalog} {store : ℕ} {now : ℤ} {pc : JsonElement}
    {T T' : Rows} (h : ∀ k, pc.fits c store k = true → T.lookup k = T'.lookup k) :
    preconditionMatches c store now T pc = preconditionMatches c store now T' pc := by
  have key : ∀ {T T' : Rows}, (∀ k, pc.fits c store k = true → T.lookup k = T'.lookup k) →
      preconditionMatches c store now T pc = true →
      preconditionMatches c store now T' pc = true := by
    intro T T' h hT
    obtain ⟨k, -, hk, hvis⟩ := of_decide_eq_true hT
    rw [h k hk] at hvis
    refine decide_eq_true ⟨k, ?_, hk, hvis⟩
    rw [Finmap.mem_keys, ← Finmap.lookup_isSome]
    exact Option.isSome_of_any hvis
  exact Bool.eq_iff_iff.mpr ⟨key h, key fun k hk => (h k hk).symm⟩

/-- The changes of a statement depend on the rows it is about. -/
theorem changesOf_congr {now : ℤ} {ops : List TupleOp} {T T' : Rows}
    (h : ∀ op ∈ ops, T.lookup op.key = T'.lookup op.key) :
    changesOf now ops T = changesOf now ops T' := by
  induction ops generalizing T T' with
  | nil => rfl
  | cons op ops ih =>
    have hrest : ∀ op' ∈ ops, T.lookup op'.key = T'.lookup op'.key := fun op' hop' =>
      h op' (List.mem_cons_of_mem op hop')
    rw [changesOf, changesOf, h op List.mem_cons_self]
    split
    · exact ih hrest
    · rename_i new _
      exact congrArg _
        (ih fun op' hop' => rowsTable.lookup_putAll_congr (hrest op' hop') [(op.key, new)])

theorem key_mem_of_changesOf {now : ℤ} {ops : List TupleOp} {T : Rows} :
    ∀ c ∈ changesOf now ops T, ∃ op ∈ ops, op.key = c.1 := by
  induction ops generalizing T with
  | nil => simp [changesOf]
  | cons op ops ih =>
    intro c hc
    rw [changesOf] at hc
    split at hc
    · obtain ⟨op', hop', hkey⟩ := ih c hc
      exact ⟨op', List.mem_cons_of_mem op hop', hkey⟩
    · rcases List.mem_cons.mp hc with rfl | hc
      · exact ⟨op, List.mem_cons_self, rfl⟩
      · obtain ⟨op', hop', hkey⟩ := ih c hc
        exact ⟨op', List.mem_cons_of_mem op hop', hkey⟩

end PgAuthz
