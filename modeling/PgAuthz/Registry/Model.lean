import Mathlib.Data.Prod.Lex
import Mathlib.Order.WithBot
import Mathlib.Order.BoundedOrder.Basic
import PgAuthz.Keyed.Table

/-!
# The model of a store, and its definition

The model of a store lives in eight tables: its types and relations, the rules that resolve a relation,
the facets that say which subjects a relation takes, the named conditions, the temporal gates, the grant
rules and the relation constraints.  Tuples, recorded events and the allowlists of the recorders name the
model from outside; they are read when a type or a relation is to go.

Rows are keyed by *name* here.  The tables of the store key them by integer ids and resolve a name within
the store, uniquely; composite foreign keys keep every reference inside the store.  A definition, which
travels between stores, is written in names.  Each table is kept in the order in which `export_model` emits
it, so that the export of a table is its list of rows.

Texts are any linear order with a least element: the collation of the database, and the empty text.  The
values of the `jsonb` columns are opaque, and the checks on them are fields of `Database`, together with
the two things a condition's test run asks of the server.

## Main definitions

* `TypeRow`, `RelationRow`, `Rule`, `Restriction`, `ConditionRow`, `GateRow`, `GrantRule`,
  `RelationConstraint`: the rows of the model
* `Store`: the tables of one store
* `Definition`, `exportModel`: the canonical snapshot of a model
* `modelChecksum`: what the checksum is taken of
-/

namespace PgAuthz

namespace Registry

open Keyed

variable (Text J : Type)

/-! ## Rows -/

/-- A row of `authz.types`.  The partition layout is not a column: `hashModulus` is the number of hash
partitions that the type was registered with, as the catalogue tells it. -/
structure TypeRow where
  name : Text
  namespaceName : Option Text
  description : Option Text
  labels : List Text
  hashModulus : ℕ
deriving DecidableEq

/-- A row of `authz.relations`. -/
structure RelationRow where
  name : Text
  description : Option Text
  payloadSchema : Option J
  metadata : J
deriving DecidableEq

/-- How a rule resolves its relation: by a tuple, as another relation of the object, or as a relation of
the objects that a relation leads to. -/
inductive RuleForm
  | direct
  | computed (computedRelation : Text)
  | ttu (tuplesetRelation tuplesetComputed : Text)
deriving DecidableEq

/-- How the rules of one group combine. -/
inductive GroupOp
  | or
  | intersection
  | exclusion
deriving DecidableEq

/-- A row of `authz.models`. -/
structure Rule where
  objectType : Text
  relation : Text
  form : RuleForm Text
  groupId : ℤ
  groupOp : GroupOp
  negated : Bool
  allowObjectWildcard : Bool
deriving DecidableEq

/-- A row of `authz.type_restrictions`: a facet of the subjects that a relation takes. -/
structure Restriction where
  objectType : Text
  relation : Text
  allowedUserType : Text
  allowedUserRelation : Option Text
  allowWildcard : Bool
  condition : Option Text
deriving DecidableEq

/-- The languages of conditions. -/
inductive Lang
  | sql
  | cel
deriving DecidableEq

/-- Whose clock a condition reads. -/
inductive TimeSource
  | caller
  | server
deriving DecidableEq

/-- A row of `authz.conditions`. -/
structure ConditionRow where
  name : Text
  expression : Text
  lang : Lang
  requiredContext : Option J
  timeSource : TimeSource
  description : Option Text
deriving DecidableEq

/-- A row of `authz.model_gates`. -/
structure GateRow where
  objectType : Text
  relation : Text
  name : Text
  spec : J
deriving DecidableEq

/-- A row of `authz.grant_rules`. -/
structure GrantRule where
  objectType : Text
  relation : Text
  requires : Text
  requiresRevoke : Option Text
  recordAs : Option Text
deriving DecidableEq

/-- A row of `authz.relation_constraints`. -/
structure RelationConstraint where
  objectType : Text
  relation : Text
  maxDirect : Option ℤ
  maxEffective : Option ℤ
  minDirect : Option ℤ
deriving DecidableEq

/-- What the model functions read of a tuple: the names it carries, whether its user or its object is the
wildcard, and when it expires. -/
structure TupleRow where
  userType : Text
  userRelation : Option Text
  relation : Text
  objectType : Text
  wildcard : Bool
  expiresAt : Option ℤ
deriving DecidableEq

/-- What the model functions read of a recorded event. -/
structure EventRow where
  subjectType : Text
  objectType : Option Text
  action : Text
deriving DecidableEq

variable {Text J}

/-! ## Keys

Each key lists the columns of the unique index of its table in the order in which the export sorts by
them.  A column that may be `NULL` is compared with `NULL` first, which is how `COALESCE(…, '')` sorts it. -/

/-- The number of the kind of the rule in `rule_type`. -/
def RuleForm.ruleType : RuleForm Text → ℕ
  | direct => 1
  | computed _ => 2
  | ttu _ _ => 3

/-- The column `computed_relation`. -/
def RuleForm.computedRelation : RuleForm Text → WithBot Text
  | computed c => (c : WithBot Text)
  | _ => ⊥

/-- The column `tupleset_relation`. -/
def RuleForm.tuplesetRelation : RuleForm Text → WithBot Text
  | ttu t _ => (t : WithBot Text)
  | _ => ⊥

/-- The column `tupleset_computed`. -/
def RuleForm.tuplesetComputed : RuleForm Text → WithBot Text
  | ttu _ c => (c : WithBot Text)
  | _ => ⊥

/-- The relations that the form names. -/
def RuleForm.relations : RuleForm Text → List Text
  | direct => []
  | computed c => [c]
  | ttu t c => [t, c]

theorem RuleForm.eq_of_columns {f g : RuleForm Text} (htype : f.ruleType = g.ruleType)
    (hcomputed : f.computedRelation = g.computedRelation) (htupleset : f.tuplesetRelation = g.tuplesetRelation)
    (hvia : f.tuplesetComputed = g.tuplesetComputed) : f = g := by
  cases f with
  | direct =>
    cases g with
    | direct => rfl
    | computed => simp [ruleType] at htype
    | ttu => simp [ruleType] at htype
  | computed c =>
    cases g with
    | direct => simp [ruleType] at htype
    | computed c' => simpa [computedRelation] using hcomputed
    | ttu => simp [ruleType] at htype
  | ttu t c =>
    cases g with
    | direct => simp [ruleType] at htype
    | computed => simp [ruleType] at htype
    | ttu t' c' =>
      obtain rfl : t = t' := WithBot.coe_injective htupleset
      obtain rfl : c = c' := WithBot.coe_injective hvia
      rfl

/-- The group that a rule belongs to. -/
def Rule.group (r : Rule Text) : Text × Text × ℤ := (r.objectType, r.relation, r.groupId)

/-- The relations that a rule names. -/
def Rule.relations (r : Rule Text) : List Text := r.relation :: r.form.relations

/-- The unique index of the rules, in the order of the export. -/
def Rule.key (r : Rule Text) :
    Text ×ₗ Text ×ₗ ℤ ×ₗ ℕ ×ₗ WithBot Text ×ₗ WithBot Text ×ₗ WithBot Text ×ₗ Bool :=
  toLex (r.objectType, toLex (r.relation, toLex (r.groupId, toLex (r.form.ruleType,
    toLex (r.form.computedRelation, toLex (r.form.tuplesetRelation,
      toLex (r.form.tuplesetComputed, r.negated)))))))

theorem Rule.key_eq_iff {r r' : Rule Text} :
    r.key = r'.key ↔ r.group = r'.group ∧ r.form = r'.form ∧ r.negated = r'.negated := by
  simp only [key, group, toLex_inj, Prod.mk.injEq]
  constructor
  · rintro ⟨h₁, h₂, h₃, h₄, h₅, h₆, h₇, h₈⟩
    exact ⟨⟨h₁, h₂, h₃⟩, RuleForm.eq_of_columns h₄ h₅ h₆ h₇, h₈⟩
  · rintro ⟨⟨h₁, h₂, h₃⟩, hform, h₈⟩
    simp [h₁, h₂, h₃, hform, h₈]

/-- The relations that a facet names. -/
def Restriction.relations (x : Restriction Text) : List Text := x.relation :: x.allowedUserRelation.toList

/-- The unique index of the facets, in the order of the export. -/
def Restriction.key (x : Restriction Text) :
    Text ×ₗ Text ×ₗ Text ×ₗ WithBot Text ×ₗ Bool ×ₗ WithBot Text :=
  toLex (x.objectType, toLex (x.relation, toLex (x.allowedUserType,
    toLex ((x.allowedUserRelation : WithBot Text), toLex (x.allowWildcard, (x.condition : WithBot Text))))))

/-- A facet is its key. -/
theorem Restriction.eq_of_key {x y : Restriction Text} (h : x.key = y.key) : x = y := by
  obtain ⟨htype, h⟩ := Prod.mk.inj (toLex_inj.mp h)
  obtain ⟨hrelation, h⟩ := Prod.mk.inj (toLex_inj.mp h)
  obtain ⟨huser, h⟩ := Prod.mk.inj (toLex_inj.mp h)
  obtain ⟨huserset, h⟩ := Prod.mk.inj (toLex_inj.mp h)
  obtain ⟨hwildcard, hcondition⟩ := Prod.mk.inj (toLex_inj.mp h)
  cases x; cases y
  exact Restriction.mk.injEq .. ▸ ⟨htype, hrelation, huser, huserset, hwildcard, hcondition⟩

/-- The unique index of the gates, in the order of the export. -/
def GateRow.key (g : GateRow Text J) : Text ×ₗ Text ×ₗ Text := toLex (g.objectType, toLex (g.relation, g.name))

/-- The relations that a grant rule names. -/
def GrantRule.relations (g : GrantRule Text) : List Text :=
  [g.relation, g.requires] ++ g.requiresRevoke.toList ++ g.recordAs.toList

/-- The unique index of the grant rules, in the order of the export. -/
def GrantRule.key (g : GrantRule Text) : Text ×ₗ Text := toLex (g.objectType, g.relation)

/-- The unique index of the relation constraints, in the order of the export. -/
def RelationConstraint.key (c : RelationConstraint Text) : Text ×ₗ Text := toLex (c.objectType, c.relation)

/-- The bounds that are set. -/
def RelationConstraint.bounds (c : RelationConstraint Text) : List ℤ :=
  c.maxDirect.toList ++ c.maxEffective.toList ++ c.minDirect.toList

/-- A tuple is active until it expires. -/
def TupleRow.Active (t : TupleRow Text) (now : ℤ) : Prop := ∀ e ∈ t.expiresAt, now < e

instance (t : TupleRow Text) (now : ℤ) : Decidable (t.Active now) :=
  inferInstanceAs (Decidable (∀ e ∈ t.expiresAt, now < e))

/-! ## The store -/

variable (Text J) in
/-- What the model functions ask of the database outside the tables of the model: PostgreSQL's `btrim`, the
test run of a condition in either language, and the checks on the values of `jsonb` columns.  The gate
normaliser is given the payload schemas of the declared relations, which is all that it reads of the store. -/
structure Database where
  btrim : Text → Text
  btrim_btrim : ∀ e, btrim (btrim e) = btrim e
  sqlCompiles : Text → Bool
  celInstalled : Bool
  celCompiles : Text → Bool
  validatePayloadSchema : J → Bool
  emptyMetadata : J
  mergeMetadata : J → J → J
  withKind : J → Bool → J
  validateRelationMetadata : J → Bool
  metadataCheck : J → Bool
  metadataCheck_empty : metadataCheck emptyMetadata = true
  gateName : Text → Bool
  validateGateSpec : (Text → Option (Option J)) → J → Text → Option J

variable [LinearOrder Text]

variable (Text J) in
/-- The tables of one store. -/
structure Store where
  types : Table (@TypeRow.name Text)
  relations : Table (@RelationRow.name Text J)
  rules : Table (@Rule.key Text)
  restrictions : Table (@Restriction.key Text)
  conditions : Table (@ConditionRow.name Text J)
  gates : Table (@GateRow.key Text J)
  grantRules : Table (@GrantRule.key Text)
  constraints : Table (@RelationConstraint.key Text)
  tuples : List (TupleRow Text)
  events : List (EventRow Text)
  /-- The actions that the recorder allowlists name. -/
  recorderActions : List Text
deriving DecidableEq

/-- A store that has just been created. -/
def Store.empty : Store Text J := ⟨∅, ∅, ∅, ∅, ∅, ∅, ∅, ∅, [], [], []⟩

/-! ## The definition -/

variable (Text J) in
/-- A definition in the shape of `export_model`. -/
structure Definition where
  types : List (TypeRow Text)
  relations : List (RelationRow Text J)
  rules : List (Rule Text)
  restrictions : List (Restriction Text)
  conditions : List (ConditionRow Text J)
  gates : List (GateRow Text J)
  grantRules : List (GrantRule Text)
  constraints : List (RelationConstraint Text)
deriving DecidableEq

/-- A type as the export shows it: the labels are sorted. -/
def TypeRow.exported (t : TypeRow Text) : TypeRow Text :=
  { t with labels := t.labels.insertionSort (· ≤ ·) }

/-- The canonical snapshot of the model of a store. -/
def exportModel (s : Store Text J) : Definition Text J where
  types := s.types.rows.map TypeRow.exported
  relations := s.relations.rows
  rules := s.rules.rows
  restrictions := s.restrictions.rows
  conditions := s.conditions.rows
  gates := s.gates.rows
  grantRules := s.grantRules.rows
  constraints := s.constraints.rows

/-- The type without its physical layout. -/
def TypeRow.logical (t : TypeRow Text) : TypeRow Text := { t with hashModulus := 0 }

/-- What the checksum of a definition is taken of: the definition without the partition layout, its types in
the order of their names.  The digest itself is left out; definitions have one checksum here when they hash
the same text. -/
def modelChecksum (d : Definition Text J) : Definition Text J :=
  { d with types := (d.types.map TypeRow.logical).insertionSort (·.name ≤ ·.name) }

namespace Definition

variable (d : Definition Text J)

/-- The names of the types of a definition. -/
def typeNames : List Text := d.types.map TypeRow.name

/-- The names of the relations of a definition. -/
def relationNames : List Text := d.relations.map RelationRow.name

/-- The names of the conditions of a definition. -/
def conditionNames : List Text := d.conditions.map ConditionRow.name

end Definition

namespace Store

variable (s : Store Text J)

/-- The names of the types of a store. -/
def typeNames : List Text := s.types.rows.map TypeRow.name

/-- The names of the relations of a store. -/
def relationNames : List Text := s.relations.rows.map RelationRow.name

/-- The names of the conditions of a store. -/
def conditionNames : List Text := s.conditions.rows.map ConditionRow.name

end Store

end Registry

end PgAuthz
