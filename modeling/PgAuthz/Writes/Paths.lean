import Mathlib
import PgAuthz.Writes.Statements

/-!
# The write paths

The functions that write tuples or edit the model, as scripts of statements, and the system of the
transactions that call them.

## Main definitions

* `writeTuple`, `writeTuples`, `writeTuplesJsonb`, `writeTuplesChecked`: the writes
* `grant`, `revoke`, `applyGrants`, `deleteTuples`, `deleteUserTuples`: sharing and removals
* `modelSetRelationConstraint`, `modelAddRule`, `modelAddTypeRestriction`, `applyModel`,
  `importOpenfgaModel`: the edits of the model
* `PathCall`, `Request`, `pathSystem`: a call with its arguments, and the system of the calls
* `PathCall.isTupleCall`, `Stmt.isEntry`: the calls that write tuples, and what their scripts hold

## Main results

* `exec_cases`: what a statement of these calls can do
-/

namespace PgAuthz.Paths

open Locking

/-! ## Arguments -/

/-- What the locks of `write_tuples_checked` depend on in a precondition: whether it is about stored
tuples (`exists`, `absent`), and the values of the keys `object_type` and `object_id`, which may be
missing or there with a JSON null. -/
structure Precondition where
  stored : Bool
  objectType : Option (Option ℕ)
  objectId : Option (Option String)
deriving DecidableEq, Repr

/-- The object that a precondition names. -/
def Precondition.object (pc : Precondition) : Option (ℕ ×ₗ String) :=
  pc.objectType.join.bind fun t => pc.objectId.join.map fun o => toLex (t, o)

/-- An element of `directly_related_user_types` in an OpenFGA model. -/
structure RelatedUserType where
  userType : ℕ
  relation : Option ℕ
  wildcard : Bool
  conditionId : Option ℕ
deriving DecidableEq, Repr

/-- A relation of a type in an OpenFGA model: the rules that its definition stands for, and the types
that may hold it. -/
structure OpenfgaRelation where
  objectType : ℕ
  relation : ℕ
  rules : List Rule
  relatedUserTypes : List RelatedUserType
deriving DecidableEq, Repr

/-- The restriction that `import_openfga_model` inserts for a related user type. -/
def OpenfgaRelation.facet (rel : OpenfgaRelation) (u : RelatedUserType) : Facet :=
  { objectType := rel.objectType
    relation := rel.relation
    allowedUserType := u.userType
    allowedUserRelation := u.relation
    allowWildcard := u.relation.isNone && u.wildcard
    conditionId := u.conditionId }

/-- A call with its arguments; an array is `none` for a `NULL`. -/
inductive PathCall
  | writeTuple (t : Tuple)
  | writeTuples (tuples : List Tuple)
  | writeTuplesJsonb (tuples : List Tuple)
  | writeTuplesChecked (preconditions : Option (List Precondition))
    (deletes writes : Option (List Tuple))
  | grant (t : Tuple)
  | revoke (t : Tuple)
  | applyGrants (grants revokes : Option (List Tuple))
  | deleteTuple (t : Tuple)
  | deleteTuples (tuples : List Tuple)
  | deleteUserTuples (userType : ℕ) (userId : String) (force : Bool)
  | modelSetRelationConstraint (objectType relation : ℕ) (bounds : Bounds)
  | modelDropRelationConstraint (objectType relation : ℕ)
  | modelAddRule (rule : Rule) (allowObjectWildcard : Bool)
  | modelAddTypeRestriction (facet : Facet)
  | modelRemoveType (objectType : ℕ) (force : Bool)
  | applyModel (definition : ModelDefinition)
  | importOpenfgaModel (types : List ℕ) (relations : List OpenfgaRelation)
deriving DecidableEq, Repr

/-- A call on a store, and the time of its statement. -/
structure Request where
  now : ℤ
  store : ℕ
  call : PathCall
deriving DecidableEq, Repr

section Scripts

variable (now : ℤ) (store : ℕ)

/-! ## Writes -/

/-- `write_tuple`; a grant that is already expired is refused. -/
def writeTuple (t : Tuple) : List Stmt :=
  [.lock (.table .rowExclusive), .require (t.visibleAt now), .insertRow (.upsert store t)]

/-- `write_tuples`: one insert, row by row. -/
def writeTuples (tuples : List Tuple) : List Stmt :=
  .lock (.table .rowExclusive) :: .cappedObjects tuples ::
    tuples.map fun t => .insertRow (.regrant store t)

/-- The elements that `write_tuples_jsonb` writes as a batch. -/
def isPlain (t : Tuple) : Bool := t.conditionId.isNone && t.expiresAt.isNone

/-- `write_tuples_jsonb`: it locks the capped objects of all elements, writes the plain ones as a
batch, and then the others one by one. -/
def writeTuplesJsonb (tuples : List Tuple) : List Stmt :=
  .cappedObjects tuples ::
    (writeTuples store (tuples.filter isPlain) ++
      (tuples.filter fun t => !isPlain t).flatMap (writeTuple now store))

/-- Some precondition on stored tuples lacks the key of the object or of its type. -/
def partialPrecondition (preconditions : List Precondition) : Bool :=
  preconditions.any fun pc => pc.stored && !(pc.objectId.isSome && pc.objectType.isSome)

/-- The objects that `write_tuples_checked` locks. The concatenation of the arrays is `NULL` if one
of them is. -/
def checkedObjects (preconditions : Option (List Precondition))
    (deletes writes : Option (List Tuple)) : List (ℕ ×ₗ String) :=
  match preconditions, deletes, writes with
  | some p, some d, some w => p.filterMap Precondition.object ++ objectsOf (d ++ w)
  | _, _, _ => []

/-- The lock of the store, and then those of objects in a sorted pass. -/
def lockObjects (mode : Mode) (objects : List (ℕ ×ₗ String)) : List Stmt :=
  .lock (.store store mode) ::
    (distinct objects).map fun o => .lock (.object store (ofLex o).1 (ofLex o).2)

/-- The keys of tuples. -/
def keysOf (tuples : List Tuple) : List RowKey := tuples.map (Tuple.rowKey store)

/-- `write_tuples_checked`. -/
def writeTuplesChecked (preconditions : Option (List Precondition))
    (deletes writes : Option (List Tuple)) : List Stmt :=
  let mode := if partialPrecondition (preconditions.getD []) then .exclusive else .shared
  let del := deletes.getD []
  let wr := writes.getD []
  lockObjects store mode (checkedObjects preconditions deletes writes) ++
    ((preconditions.getD []).map (fun _ => .scan) ++
      (.floors (keysOf store del) (keysOf store wr) ::
        ((if del.isEmpty then [] else [.deleteRows (keysOf store del)]) ++
          if wr.isEmpty then [] else writeTuplesJsonb now store wr)))

/-! ## Sharing and removals -/

/-- `_grant_rule_check`: the decision is taken under the lock of the object. -/
def grantRuleCheck (t : Tuple) : List Stmt :=
  .require (t.objectId ≠ wildcard) ::
    (lockObjects store .shared [toLex (t.objectType, t.objectId)] ++ [.scan])

/-- `grant`. -/
def grant (t : Tuple) : List Stmt := grantRuleCheck store t ++ writeTuple now store t

/-- `_delete_tuples_impl` with the check of the floors; `delete_tuple` is the case of one tuple. -/
def deleteTuples (tuples : List Tuple) : List Stmt :=
  [.floors (keysOf store tuples) [], .deleteRows (keysOf store tuples)]

/-- `revoke`. -/
def revoke (t : Tuple) : List Stmt := grantRuleCheck store t ++ deleteTuples store [t]

/-- The objects that `apply_grants` locks at first. -/
def grantObjects (grants revokes : Option (List Tuple)) : List (ℕ ×ₗ String) :=
  match grants, revokes with
  | some g, some r => objectsOf (g ++ r)
  | _, _ => []

/-- `apply_grants`: all entries are decided before the first one is written, and the floors are
decided on the net result. -/
def applyGrants (grants revokes : Option (List Tuple)) : List Stmt :=
  let gr := grants.getD []
  let rv := revokes.getD []
  lockObjects store .shared (grantObjects grants revokes) ++
    ((rv ++ gr).flatMap (grantRuleCheck store) ++
      (.floors (keysOf store rv) (keysOf store gr) ::
        (rv.map (fun t => .deleteRows [t.rowKey store]) ++ gr.flatMap (writeTuple now store))))

/-- `delete_user_tuples`; it reads the types of the user's tuples once more before the delete. -/
def deleteUserTuples (userType : ℕ) (userId : String) (force : Bool) : List Stmt :=
  (if force then [] else [.listUser userType userId]) ++ [.scan, .deleteUser userType userId]

/-! ## Edits of the model -/

/-- `model_set_relation_constraint`. -/
def modelSetRelationConstraint (objectType relation : ℕ) (b : Bounds) : List Stmt :=
  if b.maxDirect.isSome then
    [.lock (.model store objectType relation), .checkWildcards objectType relation b]
  else [.edit (.constraint ⟨store, objectType, relation⟩ (some b))]

/-- `model_add_rule`. -/
def modelAddRule (rule : Rule) (allowObjectWildcard : Bool) : List Stmt :=
  let edit := DbChange.rule ⟨store, rule, allowObjectWildcard⟩ true
  .require (!allowObjectWildcard || rule.body = .direct) ::
    if allowObjectWildcard then
      [.lock (.model store rule.objectType rule.relation),
        .checkUncapped rule.objectType rule.relation edit]
    else [.edit edit]

/-- `model_add_type_restriction`. -/
def modelAddTypeRestriction (f : Facet) : List Stmt :=
  let edit := DbChange.restriction store f true
  .require (!f.allowWildcard || f.allowedUserRelation.isNone) ::
    if f.allowWildcard then
      [.lock (.model store f.objectType f.relation), .checkUncapped f.objectType f.relation edit]
    else [.edit edit]

/-- `apply_model`: the lock of the table, the locks of the model, and then the edits. -/
def applyModel (definition : ModelDefinition) : List Stmt :=
  [.lock (.table .shareRowExclusive), .modelLocks definition, .staleTypes definition,
      .registerTypes definition.types true, .staleConstraints definition, .staleRules definition] ++
    definition.rules.flatMap (fun ρ => modelAddRule store ρ.1 ρ.2) ++
    .staleRestrictions definition ::
      (definition.restrictions.flatMap (modelAddTypeRestriction store) ++
        definition.constraints.flatMap fun c =>
          modelSetRelationConstraint store c.objectType c.relation c.bounds)

/-- `import_openfga_model`: the rules and restrictions of the store are replaced. -/
def importOpenfgaModel (types : List ℕ) (relations : List OpenfgaRelation) : List Stmt :=
  .clearModel :: .registerTypes types true ::
    relations.flatMap fun rel =>
      rel.relatedUserTypes.flatMap (fun u =>
        [.registerTypes [u.userType] false, .edit (.restriction store (rel.facet u) true)]) ++
      rel.rules.map fun ρ => .edit (.rule ⟨store, ρ, false⟩ true)

end Scripts

/-- The script of a call. -/
def Request.script (r : Request) : List Stmt :=
  match r.call with
  | .writeTuple t => writeTuple r.now r.store t
  | .writeTuples tuples => writeTuples r.store tuples
  | .writeTuplesJsonb tuples => writeTuplesJsonb r.now r.store tuples
  | .writeTuplesChecked preconditions deletes writes =>
    writeTuplesChecked r.now r.store preconditions deletes writes
  | .grant t => grant r.now r.store t
  | .revoke t => revoke r.store t
  | .applyGrants grants revokes => applyGrants r.now r.store grants revokes
  | .deleteTuple t => deleteTuples r.store [t]
  | .deleteTuples tuples => deleteTuples r.store tuples
  | .deleteUserTuples userType userId force => deleteUserTuples userType userId force
  | .modelSetRelationConstraint objectType relation b =>
    modelSetRelationConstraint r.store objectType relation b
  | .modelDropRelationConstraint objectType relation =>
    [.edit (.constraint ⟨r.store, objectType, relation⟩ none)]
  | .modelAddRule rule flag => modelAddRule r.store rule flag
  | .modelAddTypeRestriction facet => modelAddTypeRestriction r.store facet
  | .modelRemoveType objectType force => modelRemoveType objectType force
  | .applyModel definition => applyModel r.store definition
  | .importOpenfgaModel types relations => importOpenfgaModel r.store types relations

/-- Transactions that make such calls. -/
def pathSystem : Scripts.System Lock DbChange Db Stmt Request where
  conflicts := Lock.conflicts
  conflicts_comm := Lock.conflicts_comm
  apply := Db.apply
  script := Request.script
  lock := Stmt.lock?
  exec r st d := st.exec r.now r.store d

/-- A state of the system of the calls. -/
abbrev PathState := Scripts.State Lock DbChange Db Stmt Request

/-- An open transaction of the system of the calls. -/
abbrev PathTx := Scripts.Tx Lock DbChange Stmt Request

/-! ## Calls that write tuples -/

/-- The call writes tuples and leaves the model as it is. -/
def PathCall.isTupleCall : PathCall → Bool
  | writeTuple _ | writeTuples _ | writeTuplesJsonb _ | writeTuplesChecked _ _ _ | grant _ | revoke _
  | applyGrants _ _ | deleteTuple _ | deleteTuples _ | deleteUserTuples _ _ _ => true
  | _ => false

/-- A statement that a call that writes tuples may come to without a check before it. -/
def Stmt.isEntry : Stmt → Bool
  | lock _ | require _ | scan | cappedObjects _ | insertRow _ | floors _ _ | floor _ _ _
  | deleteRows _ | listUser _ _ | deleteUser _ _ => true
  | _ => false

/-- A statement of a call that writes tuples. -/
def Stmt.isTuple : Stmt → Bool
  | capGuard _ | capCount _ | putRow _ => true
  | st => st.isEntry

theorem Stmt.isTuple_of_isEntry {st : Stmt} (h : st.isEntry = true) : st.isTuple = true := by
  cases st <;> first | rfl | exact h

section Entries

variable {now : ℤ} {store : ℕ}

theorem isEntry_lockObjects (mode : Mode) (objects : List (ℕ ×ₗ String)) :
    ∀ st ∈ lockObjects store mode objects, st.isEntry = true := by
  intro st hst
  rcases List.mem_cons.mp hst with rfl | hst
  · rfl
  · obtain ⟨o, -, rfl⟩ := List.mem_map.mp hst
    rfl

theorem isEntry_writeTuple (t : Tuple) : ∀ st ∈ writeTuple now store t, st.isEntry = true := by
  intro st hst
  simp only [writeTuple, List.mem_cons, List.not_mem_nil, or_false] at hst
  rcases hst with rfl | rfl | rfl <;> rfl

theorem isEntry_writeTuples (tuples : List Tuple) :
    ∀ st ∈ writeTuples store tuples, st.isEntry = true := by
  intro st hst
  rcases List.mem_cons.mp hst with rfl | hst
  · rfl
  rcases List.mem_cons.mp hst with rfl | hst
  · rfl
  · obtain ⟨t, -, rfl⟩ := List.mem_map.mp hst
    rfl

theorem isEntry_writeTuplesJsonb (tuples : List Tuple) :
    ∀ st ∈ writeTuplesJsonb now store tuples, st.isEntry = true := by
  intro st hst
  rcases List.mem_cons.mp hst with rfl | hst
  · rfl
  rcases List.mem_append.mp hst with hst | hst
  · exact isEntry_writeTuples _ st hst
  · obtain ⟨t, -, hst⟩ := List.mem_flatMap.mp hst
    exact isEntry_writeTuple t st hst

theorem isEntry_grantRuleCheck (t : Tuple) : ∀ st ∈ grantRuleCheck store t, st.isEntry = true := by
  intro st hst
  rcases List.mem_cons.mp hst with rfl | hst
  · rfl
  rcases List.mem_append.mp hst with hst | hst
  · exact isEntry_lockObjects _ _ st hst
  · rw [List.mem_singleton.mp hst]
    rfl

theorem isEntry_deleteTuples (tuples : List Tuple) :
    ∀ st ∈ deleteTuples store tuples, st.isEntry = true := by
  intro st hst
  simp only [deleteTuples, List.mem_cons, List.not_mem_nil, or_false] at hst
  rcases hst with rfl | rfl <;> rfl

theorem isEntry_writeTuplesChecked (preconditions : Option (List Precondition))
    (deletes writes : Option (List Tuple)) :
    ∀ st ∈ writeTuplesChecked now store preconditions deletes writes, st.isEntry = true := by
  intro st hst
  simp only [writeTuplesChecked, List.mem_append, List.mem_cons, List.mem_map] at hst
  rcases hst with hst | ⟨_, _, rfl⟩ | rfl | hst | hst
  · exact isEntry_lockObjects _ _ st hst
  · rfl
  · rfl
  · split at hst
    · cases hst
    · rw [List.mem_singleton.mp hst]
      rfl
  · split at hst
    · cases hst
    · exact isEntry_writeTuplesJsonb _ st hst

theorem isEntry_applyGrants (grants revokes : Option (List Tuple)) :
    ∀ st ∈ applyGrants now store grants revokes, st.isEntry = true := by
  intro st hst
  simp only [applyGrants, List.mem_append, List.mem_cons, List.mem_map, List.mem_flatMap] at hst
  rcases hst with hst | ⟨t, _, hst⟩ | rfl | ⟨t, _, rfl⟩ | ⟨t, _, hst⟩
  · exact isEntry_lockObjects _ _ st hst
  · exact isEntry_grantRuleCheck t st hst
  · rfl
  · rfl
  · exact isEntry_writeTuple t st hst

theorem isEntry_deleteUserTuples (userType : ℕ) (userId : String) (force : Bool) :
    ∀ st ∈ deleteUserTuples userType userId force, st.isEntry = true := by
  intro st hst
  simp only [deleteUserTuples, List.mem_append, List.mem_cons, List.not_mem_nil, or_false] at hst
  rcases hst with hst | rfl | rfl
  · split at hst
    · cases hst
    · rw [List.mem_singleton.mp hst]
      rfl
  · rfl
  · rfl

/-- The script of a call that writes tuples. -/
theorem isEntry_script {r : Request} (h : r.call.isTupleCall = true) :
    ∀ st ∈ r.script, st.isEntry = true := by
  intro st hst
  unfold Request.script at hst
  split at hst <;> rename_i hcall <;> simp only [hcall, PathCall.isTupleCall] at h
  · exact isEntry_writeTuple _ st hst
  · exact isEntry_writeTuples _ st hst
  · exact isEntry_writeTuplesJsonb _ st hst
  · exact isEntry_writeTuplesChecked _ _ _ st hst
  · rcases List.mem_append.mp hst with hst | hst
    · exact isEntry_grantRuleCheck _ st hst
    · exact isEntry_writeTuple _ st hst
  · rcases List.mem_append.mp hst with hst | hst
    · exact isEntry_grantRuleCheck _ st hst
    · exact isEntry_deleteTuples _ st hst
  · exact isEntry_applyGrants _ _ st hst
  · exact isEntry_deleteTuples _ st hst
  · exact isEntry_deleteTuples _ st hst
  · exact isEntry_deleteUserTuples _ _ _ st hst
  all_goals cases h

end Entries

/-- A delete leaves no row. -/
theorem rowChange_delete {d : Db} {now : ℤ} {k : RowKey} {ch : DbChange}
    (h : rowChange d now (.delete k) = some ch) : ch = .row k none := by
  obtain ⟨e, he, rfl⟩ := Option.map_eq_some_iff.mp h
  simp only [TupleOp.effect, TupleOp.key] at he
  split at he
  · cases he
  · split at he
    · cases he
      rfl
    · cases he

/-- **What a statement of these calls can do**: it sends further statements that need no check, it is
one of the steps of the guard, it puts a row, or it deletes rows. -/
theorem exec_cases {now : ℤ} {store : ℕ} {st : Stmt} {d : Db} {chs : List DbChange}
    {sts : List Stmt} (htuple : st.isTuple = true) (h : st.exec now store d = some (chs, sts)) :
    (chs = [] ∧ ∀ st' ∈ sts, st'.isEntry = true) ∨
    (∃ op, st = .insertRow op ∧ chs = [] ∧
      (isWildcard op.key = false ∧ sts = [.capGuard op] ∨
        isWildcard op.key = true ∧ sts = [.lock (pairOf op.key).key.lock, .capGuard op])) ∨
    (∃ op, st = .capGuard op ∧ chs = [] ∧
      (d.maxDirect (pairOf op.key).key = none ∧ sts = [.putRow op] ∨
        isWildcard op.key = false ∧ sts = [.lock (pairOf op.key).lock, .capCount op])) ∨
    (∃ op, st = .capCount op ∧ chs = [] ∧ sts = [.putRow op] ∧
      ∀ m, d.maxDirect (pairOf op.key).key = some m →
        ((holders d (pairOf op.key) now).erase op.key).card < m) ∨
    (∃ op, st = .putRow op ∧ chs = (rowChange d now op).toList ∧ sts = []) ∨
    (sts = [] ∧ ∀ ch ∈ chs, ∃ k, ch = .row k none) := by
  cases st with
  | lock l =>
    cases h
    exact .inl ⟨rfl, by simp⟩
  | require ok =>
    rw [Stmt.exec] at h
    split at h <;> cases h
    exact .inl ⟨rfl, by simp⟩
  | scan =>
    cases h
    exact .inl ⟨rfl, by simp⟩
  | cappedObjects tuples =>
    cases h
    refine .inl ⟨rfl, fun st' hst' => ?_⟩
    obtain ⟨l, -, rfl⟩ := List.mem_map.mp hst'
    rfl
  | insertRow op =>
    cases h
    refine .inr (.inl ⟨op, rfl, rfl, ?_⟩)
    cases hwild : isWildcard op.key with
    | false => exact .inl ⟨rfl, rfl⟩
    | true => exact .inr ⟨rfl, rfl⟩
  -- the row goes in where there is no cap; a wildcard is refused; else the lock comes before the count
  | capGuard op =>
    rw [Stmt.exec] at h
    split at h
    · rename_i hcap
      cases h
      exact .inr (.inr (.inl ⟨op, rfl, rfl, .inl ⟨hcap, rfl⟩⟩))
    · split at h
      · cases h
      · rename_i hwild
        cases h
        exact .inr (.inr (.inl ⟨op, rfl, rfl, .inr ⟨by simpa using hwild, rfl⟩⟩))
  -- what passes the count stays below the cap
  | capCount op =>
    rw [Stmt.exec] at h
    split at h
    · rename_i hcap
      cases h
      refine .inr (.inr (.inr (.inl ⟨op, rfl, rfl, rfl, fun m hm => ?_⟩)))
      rw [hcap] at hm
      cases hm
    · rename_i m hcap
      split at h
      · cases h
      · rename_i hcount
        cases h
        refine .inr (.inr (.inr (.inl ⟨op, rfl, rfl, rfl, fun m' hm' => ?_⟩)))
        rw [hcap] at hm'
        cases hm'
        exact Nat.lt_of_not_ge hcount
  | putRow op =>
    cases h
    exact .inr (.inr (.inr (.inr (.inl ⟨op, rfl, rfl, rfl⟩))))
  | floors deletes writes =>
    cases h
    refine .inl ⟨rfl, fun st' hst' => ?_⟩
    obtain ⟨p, -, hst'⟩ := List.mem_flatMap.mp hst'
    simp only [List.mem_cons, List.not_mem_nil, or_false] at hst'
    rcases hst' with rfl | rfl <;> rfl
  | floor p deletes writes =>
    rw [Stmt.exec] at h
    split at h <;> cases h
    exact .inl ⟨rfl, by simp⟩
  -- deletions take rows away and go on to nothing
  | deleteRows keys =>
    cases h
    refine .inr (.inr (.inr (.inr (.inr ⟨rfl, fun ch hch => ?_⟩))))
    obtain ⟨k, -, hch⟩ := List.mem_filterMap.mp hch
    exact ⟨k, rowChange_delete hch⟩
  | listUser userType userId =>
    cases h
    exact .inl ⟨rfl, by simp [Stmt.isEntry]⟩
  | deleteUser userType userId =>
    cases h
    refine .inr (.inr (.inr (.inr (.inr ⟨rfl, fun ch hch => ?_⟩))))
    obtain ⟨k, -, rfl⟩ := List.mem_map.mp hch
    exact ⟨k, rfl⟩
  | _ => cases htuple

end PgAuthz.Paths
