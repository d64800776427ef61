import PgAuthz.Registry.Model

/-!
# The model functions

The functions that edit the model of a store, one row at a time: `model_register_type` and the others of
`model.sql`, `create_condition` and `delete_condition`, `add_gate` and `drop_gate`.  Each resolves the names
it is given, makes its own checks, and writes through the constraints and the row triggers of the tables.
A refusal raises, and the transaction takes everything back.

Two tables answer a write with a check of their own.  A condition is test-compiled before it is stored.  A
change of the rules is followed, once the whole statement has run, by a look at the group of every row that
it touched: a group with a negated rule must keep a rule that is not negated, or it would grant to everyone
who is not excluded.  `insertRule` and `deleteRules` are the two statements with that trigger.

The texts of rule types, operators, languages and time sources are read before anything else, and a text
that names none of them is refused; the functions here are given what the text names.

## Main definitions

* `Refusal`: what the functions raise
* `insertRule`, `deleteRules`: the statements on the rules, with the trigger
* `modelRegisterType`, …, `dropGate`: the model functions
-/

namespace PgAuthz

namespace Registry

open Keyed

variable {Text J : Type}

/-- What the model functions raise. -/
inductive Refusal (Text : Type)
  | unknownType (name : Text)
  | unknownRelation (name : Text)
  | unknownCondition (name : Text)
  | typeExists (name : Text)
  | typeHasGates (name : Text) (gates : ℕ)
  | typeHasEvents (name : Text) (events : ℕ)
  | typeHasTuples (name : Text) (tuples : ℕ)
  | relationHasTuples (name : Text) (tuples : ℕ)
  | relationReferenced (name : Text)
  | negatedOutsideExclusion
  | objectWildcardOutsideDirect
  | noBaseRule (groupId : ℤ)
  | differentGroupOp (groupId : ℤ)
  | capped (relation objectType : Text)
  | wildcardUserset
  | requiresItself (relation objectType : Text)
  | noBound
  | boundBelowOne
  | minExceedsMax
  | noDirectRule (relation objectType : Text)
  | allowsWildcards (relation objectType : Text)
  | wildcardTuples (relation objectType : Text)
  | invalidMetadata
  | invalidPayloadSchema
  | celEvaluatorMissing (name : Text)
  | invalidExpression (name : Text)
  | conditionRequired (name : Text)
  | gateName (name : Text)
  | invalidGate (name : Text)
  | noVersion (version : Option ℕ)
  | notShared
  | ownedElsewhere
  | checksumMismatch
deriving DecidableEq

variable [LinearOrder Text]

/-- Texts are compared by their order. -/
scoped instance instLawfulBEqText : LawfulBEq Text := inferInstance

/-! ## Resolving names -/

namespace Store

variable (s : Store Text J)

/-- `_t`: the type must be registered. -/
def requireType (name : Text) : Except (Refusal Text) Unit :=
  refuseIf (name ∉ s.typeNames) (.unknownType name)

/-- `_r`: the relation must be registered. -/
def requireRelation (name : Text) : Except (Refusal Text) Unit :=
  refuseIf (name ∉ s.relationNames) (.unknownRelation name)

/-- Every relation of a list must be registered. -/
def requireRelations : List Text → Except (Refusal Text) Unit
  | [] => .ok ()
  | name :: names => do
    s.requireRelation name
    requireRelations names

/-- The row of a relation. -/
def relation? (name : Text) : Option (RelationRow Text J) := s.relations.rows.find? (·.name = name)

/-- The payload schema of a declared relation. -/
def payloadSchema? (name : Text) : Option (Option J) := (s.relation? name).map RelationRow.payloadSchema

/-- The row of a condition. -/
def condition? (name : Text) : Option (ConditionRow Text J) := s.conditions.rows.find? (·.name = name)

end Store

/-! ## Types -/

/-- The tuple names the type on either side. -/
def TupleRow.NamesType (t : TupleRow Text) (name : Text) : Prop := t.objectType = name ∨ t.userType = name

/-- The tuple names the relation, its own or that of its userset. -/
def TupleRow.NamesRelation (t : TupleRow Text) (name : Text) : Prop :=
  t.relation = name ∨ t.userRelation = some name

/-- The event names the type. -/
def EventRow.NamesType (e : EventRow Text) (name : Text) : Prop :=
  e.subjectType = name ∨ e.objectType = some name

instance (t : TupleRow Text) (name : Text) : Decidable (t.NamesType name) :=
  inferInstanceAs (Decidable (_ ∨ _))

instance (t : TupleRow Text) (name : Text) : Decidable (t.NamesRelation name) :=
  inferInstanceAs (Decidable (_ ∨ _))

instance (e : EventRow Text) (name : Text) : Decidable (e.NamesType name) :=
  inferInstanceAs (Decidable (_ ∨ _))

namespace Store

variable (s : Store Text J)

/-- `_rls_count_type_tuples`: the tuples that name a type, expired ones included. -/
def typeTuples (name : Text) : ℕ := (s.tuples.filter fun t => t.NamesType name).length

/-- `_rls_count_relation_tuples`: the tuples that name a relation, expired ones included. -/
def relationTuples (name : Text) : ℕ := (s.tuples.filter fun t => t.NamesRelation name).length

/-- The gates on a type. -/
def typeGates (name : Text) : ℕ := (s.gates.rows.filter fun g => g.objectType = name).length

/-- The recorded events that name a type. -/
def typeEvents (name : Text) : ℕ := (s.events.filter fun e => e.NamesType name).length

end Store

/-- `model_register_type`: the unique index refuses a name that is taken. -/
def modelRegisterType (s : Store Text J) (t : TypeRow Text) : Except (Refusal Text) (Store Text J) := do
  refuseIf (t.name ∈ s.typeNames) (.typeExists t.name)
  return { s with types := s.types.upsert t }

/-- An `UPDATE` of the row of a type, which must be there. -/
def updateType (s : Store Text J) (name : Text) (f : TypeRow Text → TypeRow Text) :
    Except (Refusal Text) (Store Text J) :=
  match s.types.rows.find? (·.name = name) with
  | none => .error (.unknownType name)
  | some t => .ok { s with types := s.types.upsert { f t with name } }

/-- `model_set_type_namespace`. -/
def modelSetTypeNamespace (s : Store Text J) (name : Text) (space : Option Text) :
    Except (Refusal Text) (Store Text J) :=
  updateType s name fun t => { t with namespaceName := space }

/-- `model_set_type_labels`. -/
def modelSetTypeLabels (s : Store Text J) (name : Text) (labels : List Text) :
    Except (Refusal Text) (Store Text J) :=
  updateType s name fun t => { t with labels }

/-- `model_add_type_labels`. -/
def modelAddTypeLabels (s : Store Text J) (name : Text) (labels : List Text) :
    Except (Refusal Text) (Store Text J) :=
  updateType s name fun t => { t with labels := (t.labels ++ labels).dedup }

/-- `model_remove_type_labels`. -/
def modelRemoveTypeLabels (s : Store Text J) (name : Text) (labels : List Text) :
    Except (Refusal Text) (Store Text J) :=
  updateType s name fun t => { t with labels := t.labels.filter (· ∉ labels) }

/-! ## Rules -/

/-- A rule of the group that is not negated. -/
def HasBase (rules : Table (@Rule.key Text)) (group : Text × Text × ℤ) : Prop :=
  ∃ b ∈ rules.rows, b.group = group ∧ b.negated = false

/-- `_check_exclusion_group_has_base`: a group with a negated rule has one that is not. -/
def GroupHasBase (rules : Table (@Rule.key Text)) (group : Text × Text × ℤ) : Prop :=
  (∃ m ∈ rules.rows, m.group = group ∧ m.negated = true) → HasBase rules group

instance (rules : Table (@Rule.key Text)) (group : Text × Text × ℤ) : Decidable (HasBase rules group) :=
  inferInstanceAs (Decidable (∃ b ∈ rules.rows, b.group = group ∧ b.negated = false))

instance (rules : Table (@Rule.key Text)) (group : Text × Text × ℤ) : Decidable (GroupHasBase rules group) :=
  inferInstanceAs (Decidable ((∃ m ∈ rules.rows, m.group = group ∧ m.negated = true) → _))

/-- The insert of one rule, or the update of the flag of the rule under its key, and the row trigger. -/
def insertRule (rules : Table (@Rule.key Text)) (r : Rule Text) :
    Except (Refusal Text) (Table (@Rule.key Text)) := do
  refuseIf (r.negated = true ∧ r.groupOp ≠ .exclusion) .negatedOutsideExclusion
  refuseIf (r.allowObjectWildcard = true ∧ r.form ≠ .direct) .objectWildcardOutsideDirect
  -- the trigger runs after the statement and sees the new row
  refuseIf (¬ GroupHasBase (rules.upsert r) r.group) (.noBaseRule r.groupId)
  return rules.upsert r

/-- The delete of the rules of a predicate in one statement, and the row trigger on every row deleted. -/
def deleteRules (rules : Table (@Rule.key Text)) (p : Rule Text → Prop) [DecidablePred p] :
    Except (Refusal Text) (Table (@Rule.key Text)) := do
  -- the trigger runs after the statement, when all the rows are gone
  match (rules.rows.filter fun r => p r).find? fun r => ¬ GroupHasBase (rules.delete p) r.group with
  | some r => .error (.noBaseRule r.groupId)
  | none => return rules.delete p

namespace Store

variable (s : Store Text J)

/-- The relation holds at most so many tuples on an object of the type. -/
def Capped (objectType relation : Text) : Prop :=
  ∃ c ∈ s.constraints.rows, c.objectType = objectType ∧ c.relation = relation ∧ c.maxDirect.isSome

/-- The relation is assigned by tuples on the type. -/
def HasDirectRule (objectType relation : Text) : Prop :=
  ∃ m ∈ s.rules.rows, m.objectType = objectType ∧ m.relation = relation ∧ m.form = .direct

/-- The model allows wildcard tuples of the relation on the type. -/
def AllowsWildcards (objectType relation : Text) : Prop :=
  (∃ x ∈ s.restrictions.rows, x.objectType = objectType ∧ x.relation = relation ∧ x.allowWildcard = true) ∨
    ∃ m ∈ s.rules.rows, m.objectType = objectType ∧ m.relation = relation ∧ m.form = .direct ∧
      m.allowObjectWildcard = true

/-- There are active wildcard tuples of the relation on the type. -/
def HoldsWildcards (now : ℤ) (objectType relation : Text) : Prop :=
  ∃ t ∈ s.tuples, t.objectType = objectType ∧ t.relation = relation ∧ t.wildcard = true ∧ t.Active now

instance (objectType relation : Text) : Decidable (s.Capped objectType relation) :=
  inferInstanceAs (Decidable (∃ c ∈ s.constraints.rows, _))

instance (objectType relation : Text) : Decidable (s.HasDirectRule objectType relation) :=
  inferInstanceAs (Decidable (∃ m ∈ s.rules.rows, _))

instance (objectType relation : Text) : Decidable (s.AllowsWildcards objectType relation) :=
  inferInstanceAs (Decidable (_ ∨ _))

instance (now : ℤ) (objectType relation : Text) : Decidable (s.HoldsWildcards now objectType relation) :=
  inferInstanceAs (Decidable (∃ t ∈ s.tuples, _))

end Store

/-- `model_add_rule`. -/
def modelAddRule (s : Store Text J) (r : Rule Text) : Except (Refusal Text) (Store Text J) := do
  s.requireType r.objectType
  s.requireRelations r.relations
  refuseIf (r.allowObjectWildcard = true ∧ r.form ≠ .direct) .objectWildcardOutsideDirect
  refuseIf (r.allowObjectWildcard = true ∧ s.Capped r.objectType r.relation) (.capped r.relation r.objectType)
  refuseIf (∃ m ∈ s.rules.rows, m.group = r.group ∧ m.groupOp ≠ r.groupOp) (.differentGroupOp r.groupId)
  let rules ← insertRule s.rules r
  return { s with rules }

/-- `model_remove_rule`, by the key of the rule. -/
def modelRemoveRule (s : Store Text J) (r : Rule Text) : Except (Refusal Text) (Store Text J) := do
  let rules ← deleteRules s.rules fun m => m.key = r.key
  return { s with rules }

/-- `model_remove_rules`: the rules of a relation on a type go, and its facets with them. -/
def modelRemoveRules (s : Store Text J) (objectType relation : Text) :
    Except (Refusal Text) (Store Text J) := do
  s.requireType objectType
  s.requireRelation relation
  let rules ← deleteRules s.rules fun m => m.objectType = objectType ∧ m.relation = relation
  return { s with
    rules
    restrictions := s.restrictions.delete fun x => x.objectType = objectType ∧ x.relation = relation }

/-- `model_remove_type`: refused while gates or events name the type, and while tuples do unless `force`
deletes them.  Everything that the model says about the type goes with it. -/
def modelRemoveType (s : Store Text J) (name : Text) (force : Bool) :
    Except (Refusal Text) (Store Text J) := do
  s.requireType name
  refuseIf (0 < s.typeGates name) (.typeHasGates name (s.typeGates name))
  refuseIf (0 < s.typeEvents name) (.typeHasEvents name (s.typeEvents name))
  refuseIf (0 < s.typeTuples name ∧ force = false) (.typeHasTuples name (s.typeTuples name))
  let rules ← deleteRules s.rules fun m => m.objectType = name
  return { s with
    tuples := s.tuples.filter fun t => ¬ t.NamesType name
    grantRules := s.grantRules.delete fun g => g.objectType = name
    constraints := s.constraints.delete fun c => c.objectType = name
    restrictions := s.restrictions.delete fun x => x.objectType = name ∨ x.allowedUserType = name
    rules
    types := s.types.delete fun t => t.name = name }

/-! ## Relations -/

/-- A write of the row of a relation, under the check constraint on its metadata. -/
def writeRelation (db : Database Text J) (s : Store Text J) (r : RelationRow Text J) :
    Except (Refusal Text) (Store Text J) := do
  refuseIf (db.metadataCheck r.metadata = false) .invalidMetadata
  return { s with relations := s.relations.upsert r }

/-- `model_register_relation`: a registered relation keeps what it is not given. -/
def modelRegisterRelation (db : Database Text J) (s : Store Text J) (name : Text) (description : Option Text)
    (metadata : Option J) : Except (Refusal Text) (Store Text J) := do
  refuseIf (∃ m ∈ metadata, db.validateRelationMetadata m = false) .invalidMetadata
  match s.relation? name with
  | none => writeRelation db s ⟨name, description, none, metadata.getD db.emptyMetadata⟩
  | some r =>
    writeRelation db s { r with
      name
      description := description <|> r.description
      metadata := metadata.elim r.metadata (db.mergeMetadata r.metadata) }

/-- An `UPDATE` of the row of a relation that is there. -/
def updateRelation (db : Database Text J) (s : Store Text J) (name : Text)
    (f : RelationRow Text J → RelationRow Text J) : Except (Refusal Text) (Store Text J) :=
  match s.relation? name with
  | none => .error (.unknownRelation name)
  | some r => writeRelation db s { f r with name }

/-- `model_set_relation_metadata`. -/
def modelSetRelationMetadata (db : Database Text J) (s : Store Text J) (name : Text) (metadata : J) :
    Except (Refusal Text) (Store Text J) := do
  refuseIf (db.validateRelationMetadata metadata = false) .invalidMetadata
  updateRelation db s name fun r => { r with metadata := db.mergeMetadata r.metadata metadata }

/-- `infer_relation_kinds`, for one of the relations that have rules: a permission when none is direct. -/
def inferRelationKind (db : Database Text J) (s : Store Text J) (name : Text) :
    Except (Refusal Text) (Store Text J) :=
  updateRelation db s name fun r => { r with
    metadata := db.withKind r.metadata (s.rules.rows.any fun m => m.relation = name ∧ m.form = .direct) }

/-- `model_set_payload_schema`. -/
def modelSetPayloadSchema (db : Database Text J) (s : Store Text J) (name : Text) (payloadSchema : Option J) :
    Except (Refusal Text) (Store Text J) := do
  refuseIf (∃ j ∈ payloadSchema, db.validatePayloadSchema j = false) .invalidPayloadSchema
  updateRelation db s name fun r => { r with payloadSchema }

/-! ## Facets, grant rules and constraints -/

/-- `model_add_type_restriction`. -/
def modelAddTypeRestriction (s : Store Text J) (x : Restriction Text) :
    Except (Refusal Text) (Store Text J) := do
  s.requireType x.objectType
  s.requireType x.allowedUserType
  s.requireRelations x.relations
  refuseIf (x.allowWildcard = true ∧ x.allowedUserRelation.isSome) .wildcardUserset
  refuseIf (x.allowWildcard = true ∧ s.Capped x.objectType x.relation) (.capped x.relation x.objectType)
  match x.condition.filter (· ∉ s.conditionNames) with
  | some c => .error (.unknownCondition c)
  | none => return { s with restrictions := s.restrictions.upsert x }

/-- `model_remove_type_restriction`, by the key of the facet. -/
def modelRemoveTypeRestriction (s : Store Text J) (x : Restriction Text) : Store Text J :=
  { s with restrictions := s.restrictions.delete fun y => y.key = x.key }

/-- `model_remove_type_restrictions`. -/
def modelRemoveTypeRestrictions (s : Store Text J) (objectType relation : Text) :
    Except (Refusal Text) (Store Text J) := do
  s.requireType objectType
  s.requireRelation relation
  return { s with restrictions := s.restrictions.delete fun x => x.objectType = objectType ∧ x.relation = relation }

/-- `model_add_grant_rule`. -/
def modelAddGrantRule (s : Store Text J) (g : GrantRule Text) : Except (Refusal Text) (Store Text J) := do
  s.requireType g.objectType
  s.requireRelations g.relations
  refuseIf (g.requires = g.relation) (.requiresItself g.relation g.objectType)
  return { s with grantRules := s.grantRules.upsert g }

/-- `model_drop_grant_rule`. -/
def modelDropGrantRule (s : Store Text J) (objectType relation : Text) :
    Except (Refusal Text) (Store Text J) := do
  s.requireType objectType
  s.requireRelation relation
  return { s with grantRules := s.grantRules.delete fun g => g.objectType = objectType ∧ g.relation = relation }

/-- `model_set_relation_constraint`: a bound on the direct tuples needs a direct rule, and a cap must not
promise what wildcards, declared or stored, would break. -/
def modelSetRelationConstraint (now : ℤ) (s : Store Text J) (c : RelationConstraint Text) :
    Except (Refusal Text) (Store Text J) := do
  s.requireType c.objectType
  s.requireRelation c.relation
  refuseIf (c.bounds = []) .noBound
  refuseIf (∃ b ∈ c.bounds, b < 1) .boundBelowOne
  refuseIf (∃ m ∈ c.minDirect, ∃ n ∈ c.maxDirect, n < m) .minExceedsMax
  refuseIf (c.minDirect.isSome ∧ ¬ s.HasDirectRule c.objectType c.relation) (.noDirectRule c.relation c.objectType)
  refuseIf (c.maxDirect.isSome ∧ ¬ s.HasDirectRule c.objectType c.relation) (.noDirectRule c.relation c.objectType)
  refuseIf (c.maxDirect.isSome ∧ s.AllowsWildcards c.objectType c.relation)
    (.allowsWildcards c.relation c.objectType)
  refuseIf (c.maxDirect.isSome ∧ s.HoldsWildcards now c.objectType c.relation)
    (.wildcardTuples c.relation c.objectType)
  return { s with constraints := s.constraints.upsert c }

/-- `model_drop_relation_constraint`. -/
def modelDropRelationConstraint (s : Store Text J) (objectType relation : Text) :
    Except (Refusal Text) (Store Text J) := do
  s.requireType objectType
  s.requireRelation relation
  return { s with constraints := s.constraints.delete fun c => c.objectType = objectType ∧ c.relation = relation }

/-! ## Conditions and gates -/

/-- The trigger on the conditions: an expression that does not compile is not stored, nor is one in CEL
without an evaluator. -/
def validateConditionExpression (db : Database Text J) (c : ConditionRow Text J) :
    Except (Refusal Text) Unit :=
  match c.lang with
  | .sql => refuseIf (db.sqlCompiles c.expression = false) (.invalidExpression c.name)
  | .cel => do
    refuseIf (db.celInstalled = false) (.celEvaluatorMissing c.name)
    refuseIf (db.celCompiles c.expression = false) (.invalidExpression c.name)

/-- The row that `create_condition` stores: the expression trimmed, an empty description cleared, and with
none given the description that is there. -/
def ConditionRow.stored [OrderBot Text] (db : Database Text J) (s : Store Text J) (c : ConditionRow Text J) :
    ConditionRow Text J :=
  { c with
    expression := db.btrim c.expression
    description := match c.description with
      | none => (s.condition? c.name).bind ConditionRow.description
      | some d => if d = ⊥ then none else some d }

/-- `create_condition`. -/
def createCondition [OrderBot Text] (db : Database Text J) (s : Store Text J) (c : ConditionRow Text J) :
    Except (Refusal Text) (Store Text J) := do
  validateConditionExpression db (c.stored db s)
  return { s with conditions := s.conditions.upsert (c.stored db s) }

/-- `delete_condition`: refused while a facet requires the condition. -/
def deleteCondition (s : Store Text J) (name : Text) : Except (Refusal Text) (Store Text J) := do
  refuseIf (∃ x ∈ s.restrictions.rows, x.condition = some name) (.conditionRequired name)
  return { s with conditions := s.conditions.delete fun c => c.name = name }

/-- `_event_validate_gate_spec` on the declared vocabulary. -/
def normalizeSpec (db : Database Text J) (s : Store Text J) (g : GateRow Text J) (spec : J) :
    Except (Refusal Text) J :=
  match db.validateGateSpec s.payloadSchema? spec g.relation with
  | none => .error (.invalidGate g.name)
  | some spec => .ok spec

/-- `add_gate`: the spec is normalised by the function, and again by the trigger of the table. -/
def addGate (db : Database Text J) (s : Store Text J) (g : GateRow Text J) :
    Except (Refusal Text) (Store Text J) := do
  s.requireType g.objectType
  s.requireRelation g.relation
  refuseIf (db.gateName g.name = false) (.gateName g.name)
  let spec ← normalizeSpec db s g g.spec
  let spec ← normalizeSpec db s g spec
  return { s with gates := s.gates.upsert { g with spec } }

/-- `drop_gate`. -/
def dropGate (s : Store Text J) (objectType relation name : Text) : Except (Refusal Text) (Store Text J) := do
  s.requireType objectType
  s.requireRelation relation
  return { s with
    gates := s.gates.delete fun g => g.objectType = objectType ∧ g.relation = relation ∧ g.name = name }

end Registry

end PgAuthz
