import PgAuthz.Console.Roles
import PgAuthz.Daemon.Issuers
import PgAuthz.Store.Keyed
import PgAuthz.Store.Schema

/-!
# The model of a managed store

The rows of a store that the console edits: types with their namespaces, relations, rules, type
restrictions, conditions, temporal gates, grant rules, relation constraints and tuples, all by name.
Each operation of the model editor is one call of an engine function. All but the removal of a type
write rows of the type that they name; the removal of a type takes with it the type restrictions and
tuples of other types that name it as a subject.

## Main definitions

* `ManagedStore`: the rows of a store
* `ModelEdit`, `ModelEdit.apply`: the operations of the editor, as the engine runs them
* `TupleChange`, `TupleChange.apply`: statements on one tuple
* `Row`: a row that belongs to an object type

* `Tame`: what a change does that neither adds, moves nor removes a type

## Main results

* `tame_of_apply`: a change writes the rows of one known type
* `removeType_eq_ok`: what the removal of a type leaves
-/

namespace PgAuthz.Console

/-! ## Rows -/

/-- A row of `authz.types`. -/
structure TypeRow where
  name : String
  ns : Option String
  description : Option String
  labels : List String
deriving DecidableEq, Repr

/-- The metadata of a relation; a key without a value is a JSON null. -/
abbrev Metadata := List (String × Option String)

/-- A row of `authz.relations`. -/
structure RelationRow where
  name : String
  description : Option String
  metadata : Metadata
  payloadSchema : Option String
deriving DecidableEq, Repr

/-- What a rule asks, by name. -/
inductive NamedBody
  | direct
  | computed (relation : String)
  | ttu (tupleset computed : String)
deriving DecidableEq, Repr

/-- A row of `authz.models`. -/
structure RuleRow where
  id : ℕ
  objectType : String
  relation : String
  body : NamedBody
  groupId : ℤ
  groupOp : GroupOp
  negated : Bool
  allowObjectWildcard : Bool
deriving DecidableEq, Repr

/-- A row of `authz.type_restrictions`. -/
structure RestrictionRow where
  id : ℕ
  objectType : String
  relation : String
  allowedUserType : String
  allowedUserRelation : Option String
  allowWildcard : Bool
  condition : Option String
deriving DecidableEq, Repr

/-- A row of `authz.conditions`. -/
structure ConditionRow where
  name : String
  expression : String
  lang : String
  requiredContext : Option String
  description : Option String
deriving DecidableEq, Repr

/-- A row of `authz.model_gates`. -/
structure GateRow where
  objectType : String
  relation : String
  name : String
  spec : String
deriving DecidableEq, Repr

/-- A row of `authz.grant_rules`. -/
structure GrantRuleRow where
  objectType : String
  relation : String
  requires : String
  requiresRevoke : Option String
  recordAs : Option String
deriving DecidableEq, Repr

/-- A row of `authz.relation_constraints`. -/
structure ConstraintRow where
  objectType : String
  relation : String
  maxDirect : Option ℤ
  maxEffective : Option ℤ
  minDirect : Option ℤ
deriving DecidableEq, Repr

/-- The columns of the unique index of `authz.tuples`. -/
structure TupleKey where
  userType : String
  userId : String
  userRelation : Option String
  relation : String
  objectType : String
  objectId : String
deriving DecidableEq, Repr

/-- A row of `authz.tuples`. -/
structure TupleRow where
  key : TupleKey
  condition : Option String
  context : Option String
  expiresAt : Option ℤ
deriving DecidableEq, Repr

/-- The rows of one store. Rules and restrictions have serial ids; of an event only its two types are
kept. -/
structure ManagedStore where
  types : Keyed TypeRow.name
  relations : Keyed RelationRow.name
  rules : Keyed RuleRow.id
  restrictions : Keyed RestrictionRow.id
  conditions : Keyed ConditionRow.name
  gates : Keyed fun g : GateRow => (g.objectType, g.relation, g.name)
  grantRules : Keyed fun g : GrantRuleRow => (g.objectType, g.relation)
  constraints : Keyed fun c : ConstraintRow => (c.objectType, c.relation)
  tuples : Keyed TupleRow.key
  events : List (String × String)
  nextId : ℕ
  rules_lt : ∀ r ∈ rules, r.id < nextId
  restrictions_lt : ∀ x ∈ restrictions, x.id < nextId

/-- Why the engine refuses a call. -/
inductive EngineError
  | unknownType (name : String)
  | unknownRelation (name : String)
  | unknownCondition (name : String)
  | duplicateType (name : String)
  | invalid (what : String)
  | inUse (what : String)
  | capped (objectType relation : String)
deriving DecidableEq, Repr

/-- What the engine checks in code that is not embedded: the normal form of a gate's specification,
the shape of a payload schema, the text of a condition, whether a tuple may be written or deleted, and
whether a grant rule lets an actor grant or revoke it. `now` is the time of the statement. -/
structure Checks where
  now : ℤ
  gateSpec : ManagedStore → String → String → Option String
  payloadSchema : String → Option String
  condition : ConditionRow → Bool
  metadata : Metadata → Bool
  typeName : String → Bool
  writable : ManagedStore → TupleRow → Bool
  deletable : ManagedStore → TupleKey → Bool
  mayShare : ManagedStore → (actorType actorId : String) → (revoke : Bool) → TupleKey → Bool

/-! ## Operations of the editor -/

/-- `modelEdit`: the operations of the editor with the fields that each of them uses. Setting the kind
of a relation merges that key into its metadata. -/
inductive ModelEdit
  | addType (name ns description : String)
  | removeType (name : String) (force : Bool)
  | setTypeNamespace (name ns : String)
  | setTypeLabels (name : String) (labels : List String)
  | addRelation (name description : String) (metadata : Option Metadata)
  | setRelationMetadata (name : String) (metadata : Metadata)
  | addRule (objectType relation : String) (body : NamedBody) (groupId : ℤ) (groupOp : GroupOp)
      (negated allowObjectWildcard : Bool)
  | removeRule (id : ℕ)
  | addRestriction (objectType relation allowedUserType : String)
      (allowedUserRelation : Option String) (allowWildcard : Bool) (condition : Option String)
  | removeRestriction (id : ℕ)
  | addCondition (name expression lang : String) (requiredContext : Option String)
      (description : String)
  | removeCondition (name : String)
  | addGate (objectType relation name spec : String)
  | removeGate (objectType relation name : String)
  | addGrantRule (objectType relation requires : String) (requiresRevoke recordAs : Option String)
  | removeGrantRule (objectType relation : String)
  | setRelationConstraint (objectType relation : String) (maxDirect maxEffective minDirect : Option ℤ)
  | removeRelationConstraint (objectType relation : String)
  | setPayloadSchema (name : String) (schema : Option String)
deriving DecidableEq, Repr

/-- `nullable`: an empty text is no value. -/
def nullable (s : String) : Option String := if s = "" then none else some s

section Engine

variable (env : Checks) (st : ManagedStore)

/-- `_t`: the type of a name. -/
def knownType (name : String) : Except EngineError TypeRow :=
  match st.types.find? name with
  | some t => .ok t
  | none => .error (.unknownType name)

theorem knownType_eq_ok {st : ManagedStore} {name : String} {t : TypeRow} :
    knownType st name = .ok t ↔ t ∈ st.types ∧ t.name = name := by
  unfold knownType
  rw [← Keyed.find?_eq_some]
  cases st.types.find? name <;> simp

/-- `_r`: the relation of a name. -/
def knownRelation (name : String) : Except EngineError RelationRow :=
  match st.relations.find? name with
  | some r => .ok r
  | none => .error (.unknownRelation name)

/-- The texts that a namespace may have. -/
def namespaceText (s : String) : Bool :=
  match s.toList with
  | [] => false
  | c :: cs => (c.isAlpha || c == '_') && (s.length ≤ 63 : Bool) &&
      cs.all fun c => c.isAlphanum || c == '_' || c == '.' || c == '-'

/-- `model_register_type`. -/
def registerType (name : String) (ns description : Option String) : Except EngineError ManagedStore := do
  guardOr (.invalid name) (env.typeName name)
  guardOr (.duplicateType name) (!st.types.has name)
  return { st with types := st.types.upsert ⟨name, ns, description, []⟩ }

/-- `model_set_type_namespace`. -/
def setTypeNamespace (name ns : String) : Except EngineError ManagedStore := do
  guardOr (.invalid ns) (ns = "" || namespaceText ns)
  let t ← knownType st name
  return { st with types := st.types.upsert { t with ns := nullable ns } }

/-- `model_set_type_labels`. -/
def setTypeLabels (name : String) (labels : List String) : Except EngineError ManagedStore := do
  let t ← knownType st name
  return { st with types := st.types.upsert { t with labels := labels } }

/-- The tuples that name a type on either side. -/
def namesType (name : String) (t : TupleRow) : Bool :=
  t.key.objectType = name || t.key.userType = name

/-- `model_remove_type`: with the tuples and restrictions that name the type on either side, and the
other rows of the type. -/
def removeType (name : String) (force : Bool) : Except EngineError ManagedStore := do
  let _ ← knownType st name
  guardOr (.inUse "temporal gates") (st.gates.rows.all fun g => g.objectType ≠ name)
  guardOr (.inUse "recorded events") (st.events.all fun e => e.1 ≠ name && e.2 ≠ name)
  guardOr (.inUse "tuples") (force || st.tuples.rows.all fun t => !namesType name t)
  return { st with
    types := st.types.filter fun t => t.name ≠ name
    rules := st.rules.filter fun r => r.objectType ≠ name
    restrictions := st.restrictions.filter fun x => x.objectType ≠ name && x.allowedUserType ≠ name
    grantRules := st.grantRules.filter fun g => g.objectType ≠ name
    constraints := st.constraints.filter fun c => c.objectType ≠ name
    tuples := st.tuples.filter fun t => !namesType name t
    rules_lt := fun r hr => st.rules_lt r (Keyed.mem_filter.mp hr).1
    restrictions_lt := fun x hx => st.restrictions_lt x (Keyed.mem_filter.mp hx).1 }

/-- Metadata merged into that of a relation; a null removes its key. -/
def mergeMetadata (old new : Metadata) : Metadata :=
  (old.filter (fun e => !new.any (·.1 = e.1)) ++ new).filter fun e => e.2.isSome

/-- `model_register_relation`. -/
def registerRelation (name : String) (description : Option String) (metadata : Option Metadata) :
    Except EngineError ManagedStore := do
  guardOr (.invalid "metadata") (metadata.all env.metadata)
  let row := match st.relations.find? name with
    | none => ⟨name, description, metadata.getD [], none⟩
    | some old => { old with
        description := description <|> old.description
        metadata := metadata.elim old.metadata (mergeMetadata old.metadata) }
  return { st with relations := st.relations.upsert row }

/-- `model_set_relation_metadata`. -/
def setRelationMetadata (name : String) (metadata : Metadata) : Except EngineError ManagedStore := do
  let r ← knownRelation st name
  guardOr (.invalid "metadata") (env.metadata metadata)
  return { st with
    relations := st.relations.upsert { r with metadata := mergeMetadata r.metadata metadata } }

/-- `model_set_payload_schema`. -/
def setPayloadSchema (name : String) (schema : Option String) : Except EngineError ManagedStore := do
  let r ← knownRelation st name
  match schema with
  | none => return { st with relations := st.relations.upsert { r with payloadSchema := none } }
  | some text =>
    match env.payloadSchema text with
    | none => .error (.invalid "payload schema")
    | some s => return { st with relations := st.relations.upsert { r with payloadSchema := some s } }

/-- The relation of a type is capped. -/
def isCapped (objectType relation : String) : Bool :=
  st.constraints.rows.any fun c =>
    c.objectType = objectType && c.relation = relation && c.maxDirect.isSome

/-- `_check_exclusion_group_has_base`. -/
def groupHasBase (rules : List RuleRow) (objectType relation : String) (groupId : ℤ) : Bool :=
  let group := rules.filter fun r =>
    r.objectType = objectType && r.relation = relation && r.groupId = groupId
  !group.any (·.negated) || group.any (!·.negated)

/-- The relations that a rule refers to. -/
def knownBody : NamedBody → Except EngineError Unit
  | .direct => .ok ()
  | .computed r => do let _ ← knownRelation st r
  | .ttu l r => do
    let _ ← knownRelation st l
    let _ ← knownRelation st r

/-- A rule is written, and the next serial id is at least the given one. -/
def ManagedStore.putRule (row : RuleRow) (next : ℕ) (hrow : row.id < next) (hnext : st.nextId ≤ next) :
    ManagedStore :=
  { st with
    rules := st.rules.upsert row
    nextId := next
    rules_lt := by
      intro r hr
      rcases Keyed.mem_upsert.mp hr with hr | rfl
      · exact lt_of_lt_of_le (st.rules_lt r hr.1) hnext
      · exact hrow
    restrictions_lt := fun x hx => lt_of_lt_of_le (st.restrictions_lt x hx) hnext }

/-- `model_add_rule`: a rule that is there takes the flag for object wildcards. -/
def addRule (objectType relation : String) (body : NamedBody) (groupId : ℤ) (groupOp : GroupOp)
    (negated allowObjectWildcard : Bool) : Except EngineError ManagedStore := do
  let _ ← knownType st objectType
  let _ ← knownRelation st relation
  guardOr (.invalid "allow_object_wildcard") (!allowObjectWildcard || body = .direct)
  guardOr (.capped objectType relation) (!allowObjectWildcard || !isCapped st objectType relation)
  knownBody st body
  guardOr (.invalid "group_op") <| st.rules.rows.all fun r =>
    !(r.objectType = objectType && r.relation = relation && r.groupId = groupId) || r.groupOp = groupOp
  guardOr (.invalid "negated") (!negated || groupOp = .exclusion)
  match st.rules.rows.attach.find? fun r => r.1.objectType = objectType && r.1.relation = relation &&
      r.1.body = body && r.1.groupId = groupId && r.1.negated = negated with
  | some ⟨r, hr⟩ =>
    return st.putRule { r with allowObjectWildcard := allowObjectWildcard } st.nextId
      (st.rules_lt r hr) le_rfl
  | none =>
    let row := ⟨st.nextId, objectType, relation, body, groupId, groupOp, negated, allowObjectWildcard⟩
    guardOr (.invalid "exclusion group")
      (groupHasBase (st.rules.upsert row).rows objectType relation groupId)
    return st.putRule row (st.nextId + 1) (Nat.lt_succ_self _) (Nat.le_succ _)

/-- `model_remove_rule`. -/
def removeRule (id : ℕ) : Except EngineError ManagedStore := do
  let rules := st.rules.filter fun r => r.id ≠ id
  guardOr (.invalid "exclusion group") <| (st.rules.find? id).all fun r =>
    groupHasBase rules.rows r.objectType r.relation r.groupId
  return { st with
    rules := rules
    rules_lt := fun r hr => st.rules_lt r (Keyed.mem_filter.mp hr).1 }

/-- A restriction is written under the next serial id. -/
def ManagedStore.putRestriction (row : RestrictionRow) (hrow : row.id = st.nextId) : ManagedStore :=
  { st with
    restrictions := st.restrictions.upsert row
    nextId := st.nextId + 1
    rules_lt := fun r hr => Nat.lt_succ_of_lt (st.rules_lt r hr)
    restrictions_lt := by
      intro x hx
      rcases Keyed.mem_upsert.mp hx with hx | rfl
      · exact Nat.lt_succ_of_lt (st.restrictions_lt x hx.1)
      · exact hrow ▸ Nat.lt_succ_self _ }

/-- `model_add_type_restriction`. -/
def addTypeRestriction (objectType relation allowedUserType : String)
    (allowedUserRelation : Option String) (allowWildcard : Bool) (condition : Option String) :
    Except EngineError ManagedStore := do
  let _ ← knownType st objectType
  let _ ← knownRelation st relation
  let _ ← knownType st allowedUserType
  guardOr (.invalid "allow_wildcard") (!(allowWildcard && allowedUserRelation.isSome))
  guardOr (.capped objectType relation) (!(allowWildcard && isCapped st objectType relation))
  allowedUserRelation.forM fun r => do let _ ← knownRelation st r
  guardOr (.unknownCondition (condition.getD "")) (condition.all st.conditions.has)
  let same := st.restrictions.rows.any fun x => x.objectType = objectType && x.relation = relation &&
    x.allowedUserType = allowedUserType && x.allowedUserRelation = allowedUserRelation &&
      x.allowWildcard = allowWildcard && x.condition = condition
  if same then return st
  return st.putRestriction
    ⟨st.nextId, objectType, relation, allowedUserType, allowedUserRelation, allowWildcard, condition⟩ rfl

/-- `model_remove_type_restriction`. -/
def removeTypeRestriction (id : ℕ) : Except EngineError ManagedStore :=
  .ok { st with
    restrictions := st.restrictions.filter fun x => x.id ≠ id
    restrictions_lt := fun x hx => st.restrictions_lt x (Keyed.mem_filter.mp hx).1 }

/-- `create_condition`. -/
def createCondition (name expression lang : String) (requiredContext : Option String)
    (description : String) : Except EngineError ManagedStore := do
  let row := ⟨name, expression, lang, requiredContext, nullable description⟩
  guardOr (.invalid "condition") (env.condition row)
  return { st with conditions := st.conditions.upsert row }

/-- `delete_condition`. -/
def deleteCondition (name : String) : Except EngineError ManagedStore := do
  guardOr (.inUse "type restrictions") (st.restrictions.rows.all fun x => x.condition ≠ some name)
  return { st with conditions := st.conditions.filter fun c => c.name ≠ name }

/-- The texts that the name of a gate may have. -/
def gateName (s : String) : Bool :=
  match s.toList with
  | [] => false
  | c :: cs => (c.isAlpha || c == '_') && (s.length ≤ 63 : Bool) &&
      cs.all fun c => c.isAlphanum || c == '_'

/-- `add_gate`. -/
def addGate (objectType relation name spec : String) : Except EngineError ManagedStore := do
  let _ ← knownType st objectType
  let _ ← knownRelation st relation
  guardOr (.invalid "gate name") (gateName name)
  match env.gateSpec st spec relation with
  | none => .error (.invalid "gate")
  | some s => return { st with gates := st.gates.upsert ⟨objectType, relation, name, s⟩ }

/-- `drop_gate`. -/
def dropGate (objectType relation name : String) : Except EngineError ManagedStore := do
  let _ ← knownType st objectType
  let _ ← knownRelation st relation
  return { st with gates := st.gates.filter fun g =>
    !(g.objectType = objectType && g.relation = relation && g.name = name) }

/-- `model_add_grant_rule`. -/
def addGrantRule (objectType relation requires : String) (requiresRevoke recordAs : Option String) :
    Except EngineError ManagedStore := do
  let _ ← knownType st objectType
  let _ ← knownRelation st relation
  let _ ← knownRelation st requires
  requiresRevoke.forM fun r => do let _ ← knownRelation st r
  recordAs.forM fun r => do let _ ← knownRelation st r
  guardOr (.invalid "a relation cannot require itself") (requires ≠ relation)
  return { st with
    grantRules := st.grantRules.upsert ⟨objectType, relation, requires, requiresRevoke, recordAs⟩ }

/-- `model_drop_grant_rule`. -/
def dropGrantRule (objectType relation : String) : Except EngineError ManagedStore := do
  let _ ← knownType st objectType
  let _ ← knownRelation st relation
  return { st with
    grantRules := st.grantRules.filter fun g => !(g.objectType = objectType && g.relation = relation) }

/-- The model has a direct rule for the relation. -/
def hasDirectRule (objectType relation : String) : Bool :=
  st.rules.rows.any fun r => r.objectType = objectType && r.relation = relation && r.body = .direct

/-- The model promises wildcards for the relation, or a stored tuple has one. -/
def allowsWildcards (objectType relation : String) : Bool :=
  (st.restrictions.rows.any fun x =>
    x.objectType = objectType && x.relation = relation && x.allowWildcard) ||
  (st.rules.rows.any fun r => r.objectType = objectType && r.relation = relation &&
    r.body = .direct && r.allowObjectWildcard) ||
  st.tuples.rows.any fun t => t.key.objectType = objectType && t.key.relation = relation &&
    (t.key.userId = "*" || t.key.objectId = "*") && t.expiresAt.all (env.now < ·)

/-- `model_set_relation_constraint`. -/
def setRelationConstraint (objectType relation : String)
    (maxDirect maxEffective minDirect : Option ℤ) : Except EngineError ManagedStore := do
  let _ ← knownType st objectType
  let _ ← knownRelation st relation
  guardOr (.invalid "no bound") (maxDirect.isSome || maxEffective.isSome || minDirect.isSome)
  guardOr (.invalid "a bound must be at least 1")
    (maxDirect.all (1 ≤ ·) && maxEffective.all (1 ≤ ·) && minDirect.all (1 ≤ ·))
  guardOr (.invalid "min_direct exceeds max_direct")
    (minDirect.all fun least => maxDirect.all (least ≤ ·))
  guardOr (.invalid "no direct rule")
    ((minDirect.isNone && maxDirect.isNone) || hasDirectRule st objectType relation)
  guardOr (.invalid "wildcard grants") (maxDirect.isNone || !allowsWildcards env st objectType relation)
  return { st with
    constraints := st.constraints.upsert ⟨objectType, relation, maxDirect, maxEffective, minDirect⟩ }

/-- `model_drop_relation_constraint`. -/
def dropRelationConstraint (objectType relation : String) : Except EngineError ManagedStore := do
  let _ ← knownType st objectType
  let _ ← knownRelation st relation
  return { st with
    constraints := st.constraints.filter fun c => !(c.objectType = objectType && c.relation = relation) }

/-- `modelEditSQL`, and the engine function that it calls. -/
def ModelEdit.apply : ModelEdit → Except EngineError ManagedStore
  | addType name ns description => registerType env st name (nullable ns) (nullable description)
  | .removeType name force => Console.removeType st name force
  | .setTypeNamespace name ns => Console.setTypeNamespace st name ns
  | .setTypeLabels name labels =>
    Console.setTypeLabels st name ((labels.map Daemon.trimSpace).filter (· ≠ ""))
  | addRelation name description metadata => registerRelation env st name (nullable description) metadata
  | .setRelationMetadata name metadata => Console.setRelationMetadata env st name metadata
  | .addRule objectType relation body groupId groupOp negated wildcard =>
    Console.addRule st objectType relation body groupId groupOp negated wildcard
  | .removeRule id => Console.removeRule st id
  | addRestriction objectType relation userType userRelation wildcard condition =>
    addTypeRestriction st objectType relation userType userRelation wildcard condition
  | removeRestriction id => removeTypeRestriction st id
  | addCondition name expression lang requiredContext description =>
    createCondition env st name expression lang requiredContext description
  | removeCondition name => deleteCondition st name
  | .addGate objectType relation name spec => Console.addGate env st objectType relation name spec
  | removeGate objectType relation name => dropGate st objectType relation name
  | .addGrantRule objectType relation requires requiresRevoke recordAs =>
    Console.addGrantRule st objectType relation requires requiresRevoke recordAs
  | removeGrantRule objectType relation => dropGrantRule st objectType relation
  | .setRelationConstraint objectType relation maxDirect maxEffective minDirect =>
    Console.setRelationConstraint env st objectType relation maxDirect maxEffective minDirect
  | removeRelationConstraint objectType relation => dropRelationConstraint st objectType relation
  | .setPayloadSchema name schema => Console.setPayloadSchema env st name schema

/-! ## Tuples -/

/-- The row policy shows a tuple. -/
def TupleRow.visible (t : TupleRow) : Bool := t.expiresAt.all (env.now < ·)

/-- A statement on one tuple: `write_tuple`, one row of `write_tuples`, and `delete_tuple`. -/
inductive TupleChange
  | upsert (row : TupleRow)
  | insert (key : TupleKey)
  | delete (key : TupleKey)
deriving DecidableEq, Repr

/-- The tuple of a statement. -/
def TupleChange.key : TupleChange → TupleKey
  | upsert row => row.key
  | insert key => key
  | delete key => key

/-- The names of a tuple are known. -/
def knownTuple (key : TupleKey) : Except EngineError Unit := do
  let _ ← knownType st key.userType
  let _ ← knownRelation st key.relation
  let _ ← knownType st key.objectType

/-- The engine on one tuple. A batch leaves a row that is there as it is, and makes it permanent. -/
def TupleChange.apply : TupleChange → Except EngineError ManagedStore
  | upsert row => do
    knownTuple st row.key
    guardOr (.invalid "tuple") (env.writable st row)
    return { st with tuples := st.tuples.upsert row }
  | insert key => do
    knownTuple st key
    let row := match st.tuples.find? key with
      | some old => { old with expiresAt := none }
      | none => ⟨key, none, none, none⟩
    guardOr (.invalid "tuple") (env.writable st row)
    return { st with tuples := st.tuples.upsert row }
  | delete key => do
    knownTuple st key
    guardOr (.invalid "tuple") (env.deletable st key)
    return { st with tuples := st.tuples.filter fun t => !(t.key = key && t.visible env) }

/-- An operation of the editor, or a statement on a tuple. -/
inductive StoreChange
  | edit (e : ModelEdit)
  | tuple (c : TupleChange)
deriving DecidableEq, Repr

/-- The engine on one change. -/
def StoreChange.apply : StoreChange → Except EngineError ManagedStore
  | edit e => e.apply env st
  | tuple c => c.apply env st

end Engine

/-! ## Rows of a type -/

/-- A row that belongs to an object type. -/
inductive Row
  | type (t : TypeRow)
  | rule (r : RuleRow)
  | restriction (x : RestrictionRow)
  | gate (g : GateRow)
  | grantRule (g : GrantRuleRow)
  | constraint (c : ConstraintRow)
  | tuple (t : TupleRow)
deriving DecidableEq, Repr

/-- The object type of a row. -/
def Row.objectType : Row → String
  | type t => t.name
  | rule r => r.objectType
  | restriction x => x.objectType
  | gate g => g.objectType
  | grantRule g => g.objectType
  | constraint c => c.objectType
  | tuple t => t.key.objectType

/-- The type that a row names as a subject. -/
def Row.userType : Row → Option String
  | restriction x => some x.allowedUserType
  | tuple t => some t.key.userType
  | _ => none

instance : Membership Row ManagedStore where
  mem st
    | .type t => t ∈ st.types
    | .rule r => r ∈ st.rules
    | .restriction x => x ∈ st.restrictions
    | .gate g => g ∈ st.gates
    | .grantRule g => g ∈ st.grantRules
    | .constraint c => c ∈ st.constraints
    | .tuple t => t ∈ st.tuples

instance (st : ManagedStore) : (row : Row) → Decidable (row ∈ st)
  | .type t => inferInstanceAs (Decidable (t ∈ st.types))
  | .rule r => inferInstanceAs (Decidable (r ∈ st.rules))
  | .restriction x => inferInstanceAs (Decidable (x ∈ st.restrictions))
  | .gate g => inferInstanceAs (Decidable (g ∈ st.gates))
  | .grantRule g => inferInstanceAs (Decidable (g ∈ st.grantRules))
  | .constraint c => inferInstanceAs (Decidable (c ∈ st.constraints))
  | .tuple t => inferInstanceAs (Decidable (t ∈ st.tuples))

section Rows

variable {st : ManagedStore}

@[simp] theorem mem_type {t : TypeRow} : Row.type t ∈ st ↔ t ∈ st.types := Iff.rfl
@[simp] theorem mem_rule {r : RuleRow} : Row.rule r ∈ st ↔ r ∈ st.rules := Iff.rfl
@[simp] theorem mem_restriction {x : RestrictionRow} : Row.restriction x ∈ st ↔ x ∈ st.restrictions := Iff.rfl
@[simp] theorem mem_gate {g : GateRow} : Row.gate g ∈ st ↔ g ∈ st.gates := Iff.rfl
@[simp] theorem mem_grantRule {g : GrantRuleRow} : Row.grantRule g ∈ st ↔ g ∈ st.grantRules := Iff.rfl
@[simp] theorem mem_constraint {c : ConstraintRow} : Row.constraint c ∈ st ↔ c ∈ st.constraints := Iff.rfl
@[simp] theorem mem_tuple {t : TupleRow} : Row.tuple t ∈ st ↔ t ∈ st.tuples := Iff.rfl

end Rows

/-- The type whose rows a change touches, in a state. -/
def StoreChange.typ (st : ManagedStore) : StoreChange → Option String
  | .edit (.addType name ..) | .edit (.removeType name _) | .edit (.setTypeNamespace name _)
  | .edit (.setTypeLabels name _) => some name
  | .edit (.addRule t ..) | .edit (.addRestriction t ..) | .edit (.addGate t ..)
  | .edit (.removeGate t ..) | .edit (.addGrantRule t ..) | .edit (.removeGrantRule t _)
  | .edit (.setRelationConstraint t ..) | .edit (.removeRelationConstraint t _) => some t
  | .edit (.removeRule id) => (st.rules.find? id).map (·.objectType)
  | .edit (.removeRestriction id) => (st.restrictions.find? id).map (·.objectType)
  | .edit (.addRelation ..) | .edit (.setRelationMetadata ..) | .edit (.addCondition ..)
  | .edit (.removeCondition _) | .edit (.setPayloadSchema ..) => none
  | .tuple c => some c.key.objectType

/-- The type that a change removes. -/
def StoreChange.removes : StoreChange → Option String
  | .edit (.removeType name _) => some name
  | _ => none

/-! ## What a change leaves alone -/

/-- Two states differ in the rows of one type at most. -/
structure SameBut (T : String) (st st' : ManagedStore) : Prop where
  types : ∀ t : TypeRow, t.name ≠ T → (t ∈ st'.types ↔ t ∈ st.types) := by exact fun _ _ => Iff.rfl
  rules : ∀ r : RuleRow, r.objectType ≠ T → (r ∈ st'.rules ↔ r ∈ st.rules) := by
    exact fun _ _ => Iff.rfl
  restrictions : ∀ x : RestrictionRow, x.objectType ≠ T →
    (x ∈ st'.restrictions ↔ x ∈ st.restrictions) := by exact fun _ _ => Iff.rfl
  gates : ∀ g : GateRow, g.objectType ≠ T → (g ∈ st'.gates ↔ g ∈ st.gates) := by
    exact fun _ _ => Iff.rfl
  grantRules : ∀ g : GrantRuleRow, g.objectType ≠ T → (g ∈ st'.grantRules ↔ g ∈ st.grantRules) := by
    exact fun _ _ => Iff.rfl
  constraints : ∀ c : ConstraintRow, c.objectType ≠ T →
    (c ∈ st'.constraints ↔ c ∈ st.constraints) := by exact fun _ _ => Iff.rfl
  tuples : ∀ t : TupleRow, t.key.objectType ≠ T → (t ∈ st'.tuples ↔ t ∈ st.tuples) := by
    exact fun _ _ => Iff.rfl

theorem SameBut.mem {T : String} {st st' : ManagedStore} (h : SameBut T st st') {row : Row}
    (hrow : row.objectType ≠ T) : row ∈ st' ↔ row ∈ st := by
  cases row with
  | type t => exact h.types t hrow
  | rule r => exact h.rules r hrow
  | restriction x => exact h.restrictions x hrow
  | gate g => exact h.gates g hrow
  | grantRule g => exact h.grantRules g hrow
  | constraint c => exact h.constraints c hrow
  | tuple t => exact h.tuples t hrow

theorem SameBut.refl (T : String) (st : ManagedStore) : SameBut T st st :=
  ⟨fun _ _ => Iff.rfl, fun _ _ => Iff.rfl, fun _ _ => Iff.rfl, fun _ _ => Iff.rfl, fun _ _ => Iff.rfl,
    fun _ _ => Iff.rfl, fun _ _ => Iff.rfl⟩

/-- An upsert writes no row that differs from its own in what the key determines. -/
theorem mem_upsert_other {α κ β : Type} {key : α → κ} [DecidableEq κ] {T : Keyed key} {a b : α}
    (f : α → β) (hf : ∀ x y, key x = key y → f x = f y) (h : f b ≠ f a) :
    b ∈ T.upsert a ↔ b ∈ T := by
  rw [Keyed.mem_upsert]
  constructor
  · rintro (hb | rfl)
    · exact hb.1
    · exact absurd rfl h
  · intro hb
    exact .inl ⟨hb, fun hk => h (hf b a hk)⟩

section Frames

variable {env : Checks} {st st' : ManagedStore}

/-- **What a new type adds**: its own row. -/
theorem registerType_eq_ok {name : String} {ns description : Option String}
    (h : registerType env st name ns description = .ok st') :
    st'.nextId = st.nextId ∧
      ∀ row : Row, row ∈ st' ↔ row ∈ st ∨ row = .type ⟨name, ns, description, []⟩ := by
  simp only [registerType, bind_eq_ok, guardOr_eq_ok, exists_const, Bool.not_eq_true'] at h
  obtain ⟨-, habsent, h⟩ := h
  obtain rfl := Except.ok.inj h
  refine ⟨rfl, ?_⟩
  rintro (t | _ | _ | _ | _ | _ | _)
  case type =>
    simp only [mem_type, Keyed.mem_upsert, Row.type.injEq]
    refine or_congr (and_iff_left_iff_imp.mpr fun ht hname => ?_) Iff.rfl
    rw [Keyed.has_iff.mpr ⟨t, ht, hname⟩] at habsent
    cases habsent
  all_goals simp

theorem sameBut_types {T : String} {t : TypeRow} (ht : t.name = T) :
    SameBut T st { st with types := st.types.upsert t } where
  __ := SameBut.refl T st
  types _ hb := mem_upsert_other TypeRow.name (fun _ _ => id) (ht ▸ hb)

theorem setTypeLabels_sameBut {name : String} {labels : List String}
    (h : setTypeLabels st name labels = .ok st') : SameBut name st st' := by
  simp only [setTypeLabels, bind_eq_ok, knownType_eq_ok] at h
  obtain ⟨t, ⟨-, ht⟩, h⟩ := h
  obtain rfl := Except.ok.inj h
  exact sameBut_types ht

/-- The rule that `model_add_rule` writes: one that is there, or a new one. -/
theorem addRule_eq_ok {objectType relation : String} {body : NamedBody} {groupId : ℤ}
    {groupOp : GroupOp} {negated wildcard : Bool}
    (h : addRule st objectType relation body groupId groupOp negated wildcard = .ok st') :
    st.types.has objectType = true ∧ ∃ row next hrow hnext, st' = st.putRule row next hrow hnext ∧
      row.objectType = objectType ∧
      ((∃ r ∈ st.rules, r.id = row.id ∧ r.objectType = objectType) ∨ row.id = st.nextId) := by
  simp only [addRule, bind_eq_ok, guardOr_eq_ok, exists_const, knownType_eq_ok] at h
  obtain ⟨t, ht, _, -, -, -, _, -, -, -, h⟩ := h
  refine ⟨Keyed.has_iff.mpr ⟨t, ht⟩, ?_⟩
  split at h
  · rename_i r hr hfind
    have hsame := List.find?_some hfind
    simp only [Bool.and_eq_true, decide_eq_true_eq] at hsame
    have hobj : r.objectType = objectType := hsame.1.1.1.1
    exact ⟨_, _, _, _, (Except.ok.inj h).symm, hobj, .inl ⟨r, hr, rfl, hobj⟩⟩
  · simp only [bind_eq_ok, guardOr_eq_ok, exists_const] at h
    exact ⟨_, _, _, _, (Except.ok.inj h.2).symm, rfl, .inr rfl⟩

theorem addRule_sameBut {objectType relation : String} {body : NamedBody} {groupId : ℤ}
    {groupOp : GroupOp} {negated wildcard : Bool}
    (h : addRule st objectType relation body groupId groupOp negated wildcard = .ok st') :
    SameBut objectType st st' := by
  obtain ⟨-, row, next, hrow, hnext, rfl, hobj, hold⟩ := addRule_eq_ok h
  refine { SameBut.refl _ st with rules := fun b hb => ?_ }
  have hne : b ≠ row := fun heq => hb (heq ▸ hobj)
  simp only [ManagedStore.putRule, Keyed.mem_upsert, hne, or_false, and_iff_left_iff_imp]
  intro hmem hid
  -- the only row that an upsert replaces is the rule itself
  rcases hold with ⟨r, hr, hrid, hrobj⟩ | hnew
  · exact hb ((Keyed.eq_of_key hmem hr (hid.trans hrid.symm)) ▸ hrobj)
  · exact absurd (st.rules_lt b hmem) (by omega)

/-- The restriction that `model_add_type_restriction` writes, unless it is there. -/
theorem addTypeRestriction_eq_ok {objectType relation userType : String} {userRelation : Option String}
    {wildcard : Bool} {condition : Option String}
    (h : addTypeRestriction st objectType relation userType userRelation wildcard condition = .ok st') :
    st.types.has objectType = true ∧ (st' = st ∨ ∃ row hrow, st' = st.putRestriction row hrow ∧
      row.objectType = objectType) := by
  simp only [addTypeRestriction, bind_eq_ok, guardOr_eq_ok, exists_const, knownType_eq_ok] at h
  obtain ⟨t, ht, _, -, _, -, -, -, _, -, -, h⟩ := h
  refine ⟨Keyed.has_iff.mpr ⟨t, ht⟩, ?_⟩
  split at h
  · exact .inl (Except.ok.inj h).symm
  · exact .inr ⟨_, _, (Except.ok.inj h).symm, rfl⟩

theorem addTypeRestriction_sameBut {objectType relation userType : String}
    {userRelation : Option String} {wildcard : Bool} {condition : Option String}
    (h : addTypeRestriction st objectType relation userType userRelation wildcard condition = .ok st') :
    SameBut objectType st st' := by
  obtain ⟨-, rfl | ⟨row, hrow, rfl, hobj⟩⟩ := addTypeRestriction_eq_ok h
  · exact .refl ..
  · refine { SameBut.refl _ st with restrictions := fun b hb => ?_ }
    have hne : b ≠ row := fun heq => hb (heq ▸ hobj)
    simp only [ManagedStore.putRestriction, Keyed.mem_upsert, hne, or_false, and_iff_left_iff_imp]
    intro hmem hid
    exact absurd (st.restrictions_lt b hmem) (by omega)

theorem addGate_eq_ok {objectType relation name spec : String}
    (h : addGate env st objectType relation name spec = .ok st') :
    st.types.has objectType = true ∧ ∃ g : GateRow, g.objectType = objectType ∧
      st' = { st with gates := st.gates.upsert g } := by
  simp only [addGate, bind_eq_ok, guardOr_eq_ok, exists_const, knownType_eq_ok] at h
  obtain ⟨t, ht, _, -, -, h⟩ := h
  refine ⟨Keyed.has_iff.mpr ⟨t, ht⟩, ?_⟩
  split at h
  · cases h
  · exact ⟨_, rfl, (Except.ok.inj h).symm⟩

theorem addGate_sameBut {objectType relation name spec : String}
    (h : addGate env st objectType relation name spec = .ok st') : SameBut objectType st st' := by
  obtain ⟨-, g, hg, rfl⟩ := addGate_eq_ok h
  refine { SameBut.refl _ st with gates := fun b hb => mem_upsert_other GateRow.objectType ?_ (hg ▸ hb) }
  intro x y hkey
  exact (Prod.mk.inj hkey).1

theorem dropGate_sameBut {objectType relation name : String}
    (h : dropGate st objectType relation name = .ok st') : SameBut objectType st st' := by
  simp only [dropGate, bind_eq_ok] at h
  obtain ⟨_, -, _, -, h⟩ := h
  obtain rfl := Except.ok.inj h
  refine { SameBut.refl _ st with gates := fun b hb => ?_ }
  simp [hb]

theorem addGrantRule_eq_ok {objectType relation requires : String}
    {requiresRevoke recordAs : Option String}
    (h : addGrantRule st objectType relation requires requiresRevoke recordAs = .ok st') :
    st.types.has objectType = true ∧
      st' = { st with grantRules :=
        st.grantRules.upsert ⟨objectType, relation, requires, requiresRevoke, recordAs⟩ } := by
  simp only [addGrantRule, bind_eq_ok, guardOr_eq_ok, exists_const, knownType_eq_ok] at h
  obtain ⟨t, ht, _, -, _, -, _, -, _, -, -, h⟩ := h
  exact ⟨Keyed.has_iff.mpr ⟨t, ht⟩, (Except.ok.inj h).symm⟩

theorem addGrantRule_sameBut {objectType relation requires : String}
    {requiresRevoke recordAs : Option String}
    (h : addGrantRule st objectType relation requires requiresRevoke recordAs = .ok st') :
    SameBut objectType st st' := by
  obtain ⟨-, rfl⟩ := addGrantRule_eq_ok h
  refine { SameBut.refl _ st with grantRules := fun b hb => mem_upsert_other GrantRuleRow.objectType ?_ hb }
  intro x y hkey
  exact (Prod.mk.inj hkey).1

theorem dropGrantRule_sameBut {objectType relation : String}
    (h : dropGrantRule st objectType relation = .ok st') : SameBut objectType st st' := by
  simp only [dropGrantRule, bind_eq_ok] at h
  obtain ⟨_, -, _, -, h⟩ := h
  obtain rfl := Except.ok.inj h
  refine { SameBut.refl _ st with grantRules := fun b hb => ?_ }
  simp [hb]

theorem setRelationConstraint_eq_ok {objectType relation : String}
    {maxDirect maxEffective minDirect : Option ℤ}
    (h : setRelationConstraint env st objectType relation maxDirect maxEffective minDirect = .ok st') :
    st.types.has objectType = true ∧
      st' = { st with constraints :=
        st.constraints.upsert ⟨objectType, relation, maxDirect, maxEffective, minDirect⟩ } := by
  simp only [setRelationConstraint, bind_eq_ok, guardOr_eq_ok, exists_const, knownType_eq_ok] at h
  obtain ⟨t, ht, _, -, -, -, -, -, -, h⟩ := h
  exact ⟨Keyed.has_iff.mpr ⟨t, ht⟩, (Except.ok.inj h).symm⟩

theorem setRelationConstraint_sameBut {objectType relation : String}
    {maxDirect maxEffective minDirect : Option ℤ}
    (h : setRelationConstraint env st objectType relation maxDirect maxEffective minDirect = .ok st') :
    SameBut objectType st st' := by
  obtain ⟨-, rfl⟩ := setRelationConstraint_eq_ok h
  refine { SameBut.refl _ st with constraints := fun b hb => mem_upsert_other ConstraintRow.objectType ?_ hb }
  intro x y hkey
  exact (Prod.mk.inj hkey).1

theorem dropRelationConstraint_sameBut {objectType relation : String}
    (h : dropRelationConstraint st objectType relation = .ok st') : SameBut objectType st st' := by
  simp only [dropRelationConstraint, bind_eq_ok] at h
  obtain ⟨_, -, _, -, h⟩ := h
  obtain rfl := Except.ok.inj h
  refine { SameBut.refl _ st with constraints := fun b hb => ?_ }
  simp [hb]

/-- The tuple that a statement writes or deletes. -/
theorem tuple_eq_ok {c : TupleChange} (h : c.apply env st = .ok st') :
    st.types.has c.key.objectType = true ∧ ∃ tuples : Keyed TupleRow.key,
      st' = { st with tuples := tuples } ∧
        ∀ t : TupleRow, t.key.objectType ≠ c.key.objectType → (t ∈ tuples ↔ t ∈ st.tuples) := by
  have hknown : ∀ key u, knownTuple st key = .ok u → st.types.has key.objectType = true := by
    intro key u hk
    simp only [knownTuple, bind_eq_ok, knownType_eq_ok] at hk
    obtain ⟨_, -, _, -, t, ht, -⟩ := hk
    exact Keyed.has_iff.mpr ⟨t, ht⟩
  have hupsert : ∀ row t : TupleRow, t.key.objectType ≠ row.key.objectType →
      (t ∈ st.tuples.upsert row ↔ t ∈ st.tuples) := by
    intro row t ht
    refine mem_upsert_other (fun t => t.key.objectType) ?_ ht
    intro x y hkey
    exact congrArg TupleKey.objectType hkey
  cases c with
  | upsert row =>
    simp only [TupleChange.apply, bind_eq_ok, guardOr_eq_ok, exists_const] at h
    obtain ⟨u, hu, -, h⟩ := h
    exact ⟨hknown _ u hu, _, (Except.ok.inj h).symm, hupsert row⟩
  | insert key =>
    simp only [TupleChange.apply, bind_eq_ok, guardOr_eq_ok, exists_const] at h
    obtain ⟨u, hu, -, h⟩ := h
    refine ⟨hknown _ u hu, _, (Except.ok.inj h).symm, fun t ht => hupsert _ t ?_⟩
    -- the row of the key keeps its key
    have hkey : (match st.tuples.find? key with
      | some old => { old with expiresAt := none }
      | none => ⟨key, none, none, none⟩ : TupleRow).key = key := by
      split
      · rename_i old hold
        exact (Keyed.find?_eq_some.mp hold).2
      · rfl
    rw [hkey]
    exact ht
  | delete key =>
    simp only [TupleChange.apply, bind_eq_ok, guardOr_eq_ok, exists_const] at h
    obtain ⟨u, hu, -, h⟩ := h
    refine ⟨hknown _ u hu, _, (Except.ok.inj h).symm, fun t ht => ?_⟩
    have hne : t.key ≠ key := fun heq => ht (congrArg TupleKey.objectType heq)
    simp [hne]

/-- What every change does that neither adds, moves nor removes a type: it writes rows of one type,
which is known, keeps the types with their namespaces, and numbers rules and restrictions serially. -/
structure Tame (T : Option String) (st st' : ManagedStore) : Prop where
  own : ∀ row : Row, T ≠ some row.objectType → (row ∈ st' ↔ row ∈ st)
  added : ∀ row : Row, row ∈ st' → row ∉ st → st.types.has row.objectType = true
  kept : ∀ t ∈ st.types, ∃ t' ∈ st'.types, t'.name = t.name ∧ t'.ns = t.ns := by
    exact fun t ht => ⟨t, ht, rfl, rfl⟩
  next : st.nextId ≤ st'.nextId := by exact le_rfl
  ruleIds : ∀ r ∈ st'.rules, (∃ r₀ ∈ st.rules, r₀.id = r.id ∧ r₀.objectType = r.objectType) ∨
    st.nextId ≤ r.id := by exact fun r hr => .inl ⟨r, hr, rfl, rfl⟩
  restrictionIds : ∀ x ∈ st'.restrictions,
    (∃ x₀ ∈ st.restrictions, x₀.id = x.id ∧ x₀.objectType = x.objectType) ∨ st.nextId ≤ x.id := by
      exact fun x hx => .inl ⟨x, hx, rfl, rfl⟩

theorem SameBut.own {T : String} (h : SameBut T st st') (row : Row)
    (hrow : some T ≠ some row.objectType) : row ∈ st' ↔ row ∈ st :=
  h.mem fun heq => hrow (heq ▸ rfl)

theorem SameBut.added {T : String} (h : SameBut T st st') (hknown : st.types.has T = true) (row : Row)
    (hnew : row ∈ st') (hold : row ∉ st) : st.types.has row.objectType = true := by
  by_cases hrow : row.objectType = T
  · exact hrow ▸ hknown
  · exact absurd ((h.mem hrow).mp hnew) hold

/-- The same rows. -/
theorem Tame.refl (st : ManagedStore) : Tame none st st :=
  ⟨fun _ _ => Iff.rfl, fun _ h h' => absurd h h', fun t ht => ⟨t, ht, rfl, rfl⟩, le_rfl,
    fun r hr => .inl ⟨r, hr, rfl, rfl⟩, fun x hx => .inl ⟨x, hx, rfl, rfl⟩⟩

theorem addRule_tame {objectType relation : String} {body : NamedBody} {groupId : ℤ}
    {groupOp : GroupOp} {negated wildcard : Bool}
    (h : addRule st objectType relation body groupId groupOp negated wildcard = .ok st') :
    Tame (some objectType) st st' := by
  have hsame := addRule_sameBut h
  obtain ⟨hknown, row, next, hrow, hnext, rfl, hobj, hold⟩ := addRule_eq_ok h
  refine { Tame.refl st with own := hsame.own, added := hsame.added hknown, next := hnext, ruleIds := ?_ }
  intro r hr
  rcases Keyed.mem_upsert.mp hr with hr | rfl
  · exact .inl ⟨r, hr.1, rfl, rfl⟩
  · rcases hold with ⟨r₀, hr₀, hid, hobj₀⟩ | hnew
    · exact .inl ⟨r₀, hr₀, hid, hobj₀.trans hobj.symm⟩
    · exact .inr hnew.ge

theorem addTypeRestriction_tame {objectType relation userType : String}
    {userRelation : Option String} {wildcard : Bool} {condition : Option String}
    (h : addTypeRestriction st objectType relation userType userRelation wildcard condition = .ok st') :
    Tame (some objectType) st st' := by
  have hsame := addTypeRestriction_sameBut h
  obtain ⟨hknown, rfl | ⟨row, hrow, rfl, hobj⟩⟩ := addTypeRestriction_eq_ok h
  · exact { Tame.refl st' with own := hsame.own, added := hsame.added hknown }
  · refine { Tame.refl st with
      own := hsame.own, added := hsame.added hknown, next := Nat.le_succ _, restrictionIds := ?_ }
    intro x hx
    rcases Keyed.mem_upsert.mp hx with hx | rfl
    · exact .inl ⟨x, hx.1, rfl, rfl⟩
    · exact .inr hrow.ge

theorem removeRule_tame {id : ℕ} (h : removeRule st id = .ok st') :
    Tame ((st.rules.find? id).map (·.objectType)) st st' := by
  simp only [removeRule, bind_eq_ok, guardOr_eq_ok, exists_const] at h
  obtain rfl := Except.ok.inj h.2
  have hfew : ∀ r, r ∈ st.rules.filter (fun r => r.id ≠ id) → r ∈ st.rules :=
    fun r hr => (Keyed.mem_filter.mp hr).1
  refine { Tame.refl st with own := ?_, added := ?_, ruleIds := fun r hr => .inl ⟨r, hfew r hr, rfl, rfl⟩ }
  · rintro (_ | r | _ | _ | _ | _ | _) hT
    case rule =>
      simp only [mem_rule, Keyed.mem_filter, decide_eq_true_eq, and_iff_left_iff_imp]
      rintro hr rfl
      rw [Keyed.find?_eq_some.mpr ⟨hr, rfl⟩] at hT
      exact hT rfl
    all_goals exact Iff.rfl
  · rintro (_ | r | _ | _ | _ | _ | _) hnew hold
    case rule => exact absurd (hfew r hnew) hold
    all_goals exact absurd hnew hold

theorem removeTypeRestriction_tame {id : ℕ} (h : removeTypeRestriction st id = .ok st') :
    Tame ((st.restrictions.find? id).map (·.objectType)) st st' := by
  obtain rfl := Except.ok.inj h
  have hfew : ∀ x, x ∈ st.restrictions.filter (fun x => x.id ≠ id) → x ∈ st.restrictions :=
    fun x hx => (Keyed.mem_filter.mp hx).1
  refine { Tame.refl st with own := ?_, added := ?_, restrictionIds := fun x hx => .inl ⟨x, hfew x hx, rfl, rfl⟩ }
  · rintro (_ | _ | x | _ | _ | _ | _) hT
    case restriction =>
      simp only [mem_restriction, Keyed.mem_filter, decide_eq_true_eq, and_iff_left_iff_imp]
      rintro hx rfl
      rw [Keyed.find?_eq_some.mpr ⟨hx, rfl⟩] at hT
      exact hT rfl
    all_goals exact Iff.rfl
  · rintro (_ | _ | x | _ | _ | _ | _) hnew hold
    case restriction => exact absurd (hfew x hnew) hold
    all_goals exact absurd hnew hold

theorem setTypeLabels_tame {name : String} {labels : List String}
    (h : setTypeLabels st name labels = .ok st') : Tame (some name) st st' := by
  have hsame := setTypeLabels_sameBut h
  simp only [setTypeLabels, bind_eq_ok, knownType_eq_ok] at h
  obtain ⟨t, ⟨ht, hname⟩, h⟩ := h
  obtain rfl := Except.ok.inj h
  refine { Tame.refl st with own := hsame.own, added := hsame.added (Keyed.has_iff.mpr ⟨t, ht, hname⟩), kept := ?_ }
  intro t₁ ht₁
  by_cases hsame : t₁.name = t.name
  · obtain rfl := Keyed.eq_of_key ht₁ ht hsame
    exact ⟨_, Keyed.mem_upsert.mpr (.inr rfl), rfl, rfl⟩
  · exact ⟨t₁, Keyed.mem_upsert.mpr (.inl ⟨ht₁, hsame⟩), rfl, rfl⟩

/-- The calls that need their type and touch neither types nor serial ids. -/
theorem tame_of_sameBut {T : String} (hsame : SameBut T st st') (hknown : st.types.has T = true)
    (htypes : st'.types = st.types) (hrules : st'.rules = st.rules)
    (hrestrictions : st'.restrictions = st.restrictions) (hnext : st'.nextId = st.nextId) :
    Tame (some T) st st' where
  own := hsame.own
  added := hsame.added hknown
  kept t ht := ⟨t, htypes ▸ ht, rfl, rfl⟩
  next := hnext.ge
  ruleIds r hr := .inl ⟨r, hrules ▸ hr, rfl, rfl⟩
  restrictionIds x hx := .inl ⟨x, hrestrictions ▸ hx, rfl, rfl⟩

/-- The calls on relations and conditions. -/
theorem tame_of_relations {relations : Keyed RelationRow.name} {conditions : Keyed ConditionRow.name} :
    Tame none st { st with relations := relations, conditions := conditions } where
  own row _ := by cases row <;> exact Iff.rfl
  added row hnew hold := by cases row <;> exact absurd hnew hold
  __ := Tame.refl st

/-- **What a change does** that neither adds, moves nor removes a type. -/
theorem tame_of_apply {c : StoreChange} (h : c.apply env st = .ok st')
    (hadd : ∀ name ns description, c ≠ .edit (.addType name ns description))
    (hmove : ∀ name ns, c ≠ .edit (.setTypeNamespace name ns)) (hremove : c.removes = none) :
    Tame (c.typ st) st st' := by
  cases c with
  | tuple c =>
    obtain ⟨hknown, tuples, rfl, htuples⟩ := tuple_eq_ok (show c.apply env st = .ok st' from h)
    exact tame_of_sameBut { SameBut.refl _ st with tuples := htuples } hknown rfl rfl rfl rfl
  | edit e =>
    replace h : e.apply env st = .ok st' := h
    cases e with
    | addType name ns description => exact absurd rfl (hadd name ns description)
    | setTypeNamespace name ns => exact absurd rfl (hmove name ns)
    | removeType name force => cases hremove
    | setTypeLabels name labels => exact setTypeLabels_tame h
    | addRelation name description metadata =>
      simp only [ModelEdit.apply, registerRelation, bind_eq_ok, guardOr_eq_ok, exists_const] at h
      obtain rfl := Except.ok.inj h.2
      exact tame_of_relations
    | setRelationMetadata name metadata =>
      simp only [ModelEdit.apply, setRelationMetadata, bind_eq_ok, guardOr_eq_ok, exists_const] at h
      obtain ⟨_, -, -, h⟩ := h
      obtain rfl := Except.ok.inj h
      exact tame_of_relations
    | addRule => exact addRule_tame h
    | removeRule id => exact removeRule_tame h
    | addRestriction => exact addTypeRestriction_tame h
    | removeRestriction id => exact removeTypeRestriction_tame h
    | addCondition name expression lang requiredContext description =>
      simp only [ModelEdit.apply, createCondition, bind_eq_ok, guardOr_eq_ok, exists_const] at h
      obtain rfl := Except.ok.inj h.2
      exact tame_of_relations
    | removeCondition name =>
      simp only [ModelEdit.apply, deleteCondition, bind_eq_ok, guardOr_eq_ok, exists_const] at h
      obtain rfl := Except.ok.inj h.2
      exact tame_of_relations
    | addGate objectType relation name spec =>
      have hsame := addGate_sameBut h
      obtain ⟨hknown, g, -, rfl⟩ := addGate_eq_ok h
      exact tame_of_sameBut hsame hknown rfl rfl rfl rfl
    | removeGate objectType relation name =>
      have hsame := dropGate_sameBut h
      simp only [ModelEdit.apply, dropGate, bind_eq_ok, knownType_eq_ok] at h
      obtain ⟨t, ht, _, -, h⟩ := h
      obtain rfl := Except.ok.inj h
      exact tame_of_sameBut hsame (Keyed.has_iff.mpr ⟨t, ht⟩) rfl rfl rfl rfl
    | addGrantRule objectType relation requires requiresRevoke recordAs =>
      have hsame := addGrantRule_sameBut h
      obtain ⟨hknown, rfl⟩ := addGrantRule_eq_ok h
      exact tame_of_sameBut hsame hknown rfl rfl rfl rfl
    | removeGrantRule objectType relation =>
      have hsame := dropGrantRule_sameBut h
      simp only [ModelEdit.apply, dropGrantRule, bind_eq_ok, knownType_eq_ok] at h
      obtain ⟨t, ht, _, -, h⟩ := h
      obtain rfl := Except.ok.inj h
      exact tame_of_sameBut hsame (Keyed.has_iff.mpr ⟨t, ht⟩) rfl rfl rfl rfl
    | setRelationConstraint objectType relation maxDirect maxEffective minDirect =>
      have hsame := setRelationConstraint_sameBut h
      obtain ⟨hknown, rfl⟩ := setRelationConstraint_eq_ok h
      exact tame_of_sameBut hsame hknown rfl rfl rfl rfl
    | removeRelationConstraint objectType relation =>
      have hsame := dropRelationConstraint_sameBut h
      simp only [ModelEdit.apply, dropRelationConstraint, bind_eq_ok, knownType_eq_ok] at h
      obtain ⟨t, ht, _, -, h⟩ := h
      obtain rfl := Except.ok.inj h
      exact tame_of_sameBut hsame (Keyed.has_iff.mpr ⟨t, ht⟩) rfl rfl rfl rfl
    | setPayloadSchema name schema =>
      simp only [ModelEdit.apply, setPayloadSchema, bind_eq_ok] at h
      obtain ⟨r, -, h⟩ := h
      split at h
      · obtain rfl := Except.ok.inj h
        exact tame_of_relations
      · split at h
        · cases h
        · obtain rfl := Except.ok.inj h
          exact tame_of_relations

/-- **What the removal of a type leaves**: every row that does not name the type. -/
theorem removeType_eq_ok {name : String} {force : Bool} (h : removeType st name force = .ok st') :
    st.types.has name = true ∧ st'.nextId = st.nextId ∧
      ∀ row : Row, row ∈ st' ↔ row ∈ st ∧ row.objectType ≠ name ∧ row.userType ≠ some name := by
  simp only [removeType, bind_eq_ok, guardOr_eq_ok, exists_const, knownType_eq_ok,
    List.all_eq_true, decide_eq_true_eq] at h
  obtain ⟨t, ht, hgates, -, -, h⟩ := h
  obtain rfl := Except.ok.inj h
  refine ⟨Keyed.has_iff.mpr ⟨t, ht⟩, rfl, ?_⟩
  rintro (_ | _ | _ | g | _ | _ | _)
  case gate =>
    -- a type with gates is not removed
    simp only [mem_gate, Row.objectType, Row.userType, reduceCtorEq, ne_eq, not_false_eq_true, and_true]
    exact ⟨fun hg => ⟨hg, hgates g hg⟩, And.left⟩
  all_goals simp [Row.objectType, Row.userType, namesType]

end Frames

end PgAuthz.Console
