import PgAuthz.Registry.Functions

/-!
# Publishing and applying a model

The registry keeps the versions of a named model, each the definition of a store's model at the moment it
was published.  `apply_model` makes the model of a store match a version: it removes the types that the
definition leaves out, writes types and relations, brings the rules, the conditions, the facets, the grant
rules and the constraints in line, then removes the stale relations and conditions, and the gates come last.
Every row goes through a model function or through a statement of its own, in the order below, and any
refusal takes back the whole.  At the end the model is exported again and its checksum compared with that
of the version.

The rules are the delicate part.  The stale ones are deleted in one statement; the desired ones are added
one at a time, in the order of the definition, and the trigger looks at the group of each row as soon as it
is there.

A model belongs to the group of the store that published it first, to the store itself when it is in no
group, or to the platform; a group's model takes new versions from its own stores only, and is applied by
its own stores and by those of the groups it is shared with.

## Main definitions

* `Registered`, `publishModel`: the versions of a model, and the next one
* `removeStaleTypes`, …, `addGates`: the steps of `apply_model`
* `syncModel`, `applyModel`: the steps in their order, and the function
-/

namespace PgAuthz

namespace Registry

open Keyed

variable {Text J : Type}

/-! ## The registry -/

variable (Text) in
/-- A store as the registry sees it: its name and its group. -/
structure Tenant where
  name : Text
  group : Option Text

variable (Text) in
/-- A row of `authz.model_owners`: a group, a store in no group, or the platform. -/
structure Owner where
  ownerGroup : Option Text
  ownerStore : Option Text

variable (Text J) in
/-- A row of `authz.model_registry`. -/
structure Version where
  version : ℕ
  definition : Definition Text J

variable (Text J) in
/-- A name in the registry: its owner and its versions, the latest first.  `platform` is the group
`default`, and `consumers` the grants of `model_consumer` between groups. -/
structure Registered where
  platform : Text
  consumers : List (Text × Text)
  owner : Option (Owner Text)
  versions : List (Version Text J)

variable [LinearOrder Text]

/-- `_claim_model_owner`: a new name goes to the publisher; a group's name takes versions from the group. -/
def claimModelOwner (reg : Registered Text J) (publisher : Tenant Text) :
    Except (Refusal Text) (Owner Text) :=
  match reg.owner with
  | none => .ok ⟨publisher.group, if publisher.group = none then some publisher.name else none⟩
  | some o => do
    refuseIf (∃ g ∈ o.ownerGroup, g ≠ reg.platform ∧ publisher.group ≠ some g) .ownedElsewhere
    return o

/-- `_model_applicable`: the platform's models and those of stores in no group are open to every store. -/
def Registered.Applicable (reg : Registered Text J) (tenant : Tenant Text) : Prop :=
  ∀ o ∈ reg.owner, ∀ g ∈ o.ownerGroup,
    g = reg.platform ∨ tenant.group = some g ∨ ∃ h ∈ tenant.group, (g, h) ∈ reg.consumers

instance (reg : Registered Text J) (tenant : Tenant Text) : Decidable (reg.Applicable tenant) :=
  inferInstanceAs (Decidable (∀ o ∈ reg.owner, _))

/-- `publish_model`: the model of a store becomes the next version, unless the latest has its checksum. -/
def publishModel [DecidableEq J] (reg : Registered Text J) (publisher : Tenant Text) (s : Store Text J) :
    Except (Refusal Text) (Registered Text J) := do
  match reg.versions with
  | [] =>
    let owner ← claimModelOwner reg publisher
    return { reg with owner := some owner, versions := [⟨1, exportModel s⟩] }
  | latest :: older =>
    if modelChecksum latest.definition = modelChecksum (exportModel s) then
      return reg
    else
      let owner ← claimModelOwner reg publisher
      return { reg with
        owner := some owner
        versions := ⟨latest.version + 1, exportModel s⟩ :: latest :: older }

/-- The version that is asked for, or the latest. -/
def Registered.resolve (reg : Registered Text J) : Option ℕ → Option (Version Text J)
  | none => reg.versions.head?
  | some n => reg.versions.find? (·.version = n)

/-! ## Types and relations -/

/-- The stale types are removed through `model_remove_type`, without force. -/
def removeStaleTypes (d : Definition Text J) (s : Store Text J) : Except (Refusal Text) (Store Text J) :=
  (s.typeNames.filter (· ∉ d.typeNames)).foldlM (fun s name => modelRemoveType s name false) s

/-- A type of the definition: its row is updated, or it is registered with the layout of the definition. -/
def syncType (s : Store Text J) (t : TypeRow Text) : Except (Refusal Text) (Store Text J) :=
  if t.name ∈ s.typeNames then
    updateType s t.name fun row => { t with hashModulus := row.hashModulus }
  else
    modelRegisterType s t

/-- The types of the definition. -/
def syncTypes (d : Definition Text J) (s : Store Text J) : Except (Refusal Text) (Store Text J) :=
  d.types.foldlM syncType s

/-- A relation of the definition: registered, its description and metadata those of the definition, and its
payload schema with them. -/
def syncRelation (db : Database Text J) (s : Store Text J) (r : RelationRow Text J) :
    Except (Refusal Text) (Store Text J) := do
  let s ← modelRegisterRelation db s r.name r.description none
  let s ← updateRelation db s r.name fun row => { row with description := r.description, metadata := r.metadata }
  modelSetPayloadSchema db s r.name r.payloadSchema

/-- The relations of the definition. -/
def syncRelations (db : Database Text J) (d : Definition Text J) (s : Store Text J) :
    Except (Refusal Text) (Store Text J) :=
  d.relations.foldlM (syncRelation db) s

/-! ## Constraints that go, and rules -/

/-- The definition keeps the constraint: it has one for the pair, and a cap where there is one now. -/
def Definition.KeepsConstraint (d : Definition Text J) (c : RelationConstraint Text) : Prop :=
  ∃ x ∈ d.constraints, x.objectType = c.objectType ∧ x.relation = c.relation ∧
    (c.maxDirect = none ∨ x.maxDirect.isSome)

/-- The definition has the rule, with the same operator. -/
def Definition.KeepsRule (d : Definition Text J) (m : Rule Text) : Prop :=
  ∃ w ∈ d.rules, w.key = m.key ∧ w.groupOp = m.groupOp

instance (d : Definition Text J) (c : RelationConstraint Text) : Decidable (d.KeepsConstraint c) :=
  inferInstanceAs (Decidable (∃ x ∈ d.constraints, _))

instance (d : Definition Text J) (m : Rule Text) : Decidable (d.KeepsRule m) :=
  inferInstanceAs (Decidable (∃ w ∈ d.rules, _))

/-- The constraints that the definition does not keep are dropped. -/
def dropStaleConstraints (d : Definition Text J) (s : Store Text J) : Store Text J :=
  { s with constraints := s.constraints.delete fun c => ¬ d.KeepsConstraint c }

/-- The names of the definition's rules are resolved, and the rules that it does not keep are deleted. -/
def deleteStaleRules (d : Definition Text J) (s : Store Text J) : Except (Refusal Text) (Store Text J) := do
  d.rules.forM fun r => do
    s.requireType r.objectType
    s.requireRelations r.relations
  let rules ← deleteRules s.rules fun m => ¬ d.KeepsRule m
  return { s with rules }

/-- The rules of the definition are added in its order. -/
def addRules (d : Definition Text J) (s : Store Text J) : Except (Refusal Text) (Store Text J) :=
  d.rules.foldlM modelAddRule s

/-! ## Conditions, facets and grant rules -/

/-- A condition of the definition; one without a description has none. -/
def syncCondition [OrderBot Text] (db : Database Text J) (s : Store Text J) (c : ConditionRow Text J) :
    Except (Refusal Text) (Store Text J) :=
  createCondition db s { c with description := some (c.description.getD ⊥) }

/-- The conditions of the definition, before the facets that may require them. -/
def syncConditions [OrderBot Text] (db : Database Text J) (d : Definition Text J) (s : Store Text J) :
    Except (Refusal Text) (Store Text J) :=
  d.conditions.foldlM (syncCondition db) s

/-- The definition has the facet.  A required condition that the store does not know resolves to none. -/
def KeepsRestriction (d : Definition Text J) (s : Store Text J) (x : Restriction Text) : Prop :=
  ∃ w ∈ d.restrictions, { w with condition := w.condition.filter (· ∈ s.conditionNames) }.key = x.key

instance (d : Definition Text J) (s : Store Text J) (x : Restriction Text) : Decidable (KeepsRestriction d s x) :=
  inferInstanceAs (Decidable (∃ w ∈ d.restrictions, _))

/-- The names of the definition's facets are resolved, and the facets that it does not have are deleted. -/
def deleteStaleRestrictions (d : Definition Text J) (s : Store Text J) :
    Except (Refusal Text) (Store Text J) := do
  d.restrictions.forM fun x => do
    s.requireType x.objectType
    s.requireType x.allowedUserType
    s.requireRelations x.relations
  return { s with restrictions := s.restrictions.delete fun x => ¬ KeepsRestriction d s x }

/-- The facets of the definition. -/
def addRestrictions (d : Definition Text J) (s : Store Text J) : Except (Refusal Text) (Store Text J) :=
  d.restrictions.foldlM modelAddTypeRestriction s

/-- The grant rules that the definition leaves out are deleted. -/
def dropStaleGrantRules (d : Definition Text J) (s : Store Text J) : Store Text J :=
  { s with grantRules := s.grantRules.delete fun g =>
      ¬ ∃ x ∈ d.grantRules, x.objectType = g.objectType ∧ x.relation = g.relation }

/-- The grant rules of the definition. -/
def addGrantRules (d : Definition Text J) (s : Store Text J) : Except (Refusal Text) (Store Text J) :=
  d.grantRules.foldlM modelAddGrantRule s

/-- The constraints of the definition, against the rules and the facets that are now there. -/
def setConstraints (now : ℤ) (d : Definition Text J) (s : Store Text J) :
    Except (Refusal Text) (Store Text J) :=
  d.constraints.foldlM (modelSetRelationConstraint now) s

/-! ## What is removed last, and gates -/

/-- A row outside the relations names the relation: a foreign key keeps the relation then. -/
def Store.ReferencesRelation (s : Store Text J) (name : Text) : Prop :=
  (∃ r ∈ s.rules.rows, name ∈ r.relations) ∨ (∃ x ∈ s.restrictions.rows, name ∈ x.relations) ∨
    (∃ g ∈ s.grantRules.rows, name ∈ g.relations) ∨ (∃ c ∈ s.constraints.rows, c.relation = name) ∨
    (∃ g ∈ s.gates.rows, g.relation = name) ∨ (∃ e ∈ s.events, e.action = name) ∨ name ∈ s.recorderActions

instance (s : Store Text J) (name : Text) : Decidable (s.ReferencesRelation name) :=
  inferInstanceAs (Decidable (_ ∨ _))

/-- A stale relation is removed; tuples have no foreign key on it and are counted. -/
def removeStaleRelation (s : Store Text J) (name : Text) : Except (Refusal Text) (Store Text J) := do
  refuseIf (0 < s.relationTuples name) (.relationHasTuples name (s.relationTuples name))
  refuseIf (s.ReferencesRelation name) (.relationReferenced name)
  return { s with relations := s.relations.delete fun r => r.name = name }

/-- The stale relations are removed. -/
def removeStaleRelations (d : Definition Text J) (s : Store Text J) : Except (Refusal Text) (Store Text J) :=
  (s.relationNames.filter (· ∉ d.relationNames)).foldlM removeStaleRelation s

/-- The stale conditions are removed. -/
def removeStaleConditions (d : Definition Text J) (s : Store Text J) : Except (Refusal Text) (Store Text J) :=
  (s.conditionNames.filter (· ∉ d.conditionNames)).foldlM deleteCondition s

/-- The gates that the definition leaves out are dropped. -/
def dropStaleGates (d : Definition Text J) (s : Store Text J) : Except (Refusal Text) (Store Text J) :=
  (s.gates.rows.filter fun g => ¬ ∃ x ∈ d.gates, x.key = g.key).foldlM
    (fun s g => dropGate s g.objectType g.relation g.name) s

/-- The gates of the definition. -/
def addGates (db : Database Text J) (d : Definition Text J) (s : Store Text J) :
    Except (Refusal Text) (Store Text J) :=
  d.gates.foldlM (addGate db) s

/-! ## The function -/

/-- The steps of `apply_model`, up to its check of itself. -/
def syncModel [OrderBot Text] (db : Database Text J) (now : ℤ) (d : Definition Text J) (s : Store Text J) :
    Except (Refusal Text) (Store Text J) := do
  let s ← removeStaleTypes d s
  let s ← syncTypes d s
  let s ← syncRelations db d s
  let s ← deleteStaleRules d (dropStaleConstraints d s)
  let s ← addRules d s
  let s ← syncConditions db d s
  let s ← deleteStaleRestrictions d s
  let s ← addRestrictions d s
  let s ← addGrantRules d (dropStaleGrantRules d s)
  let s ← setConstraints now d s
  let s ← removeStaleRelations d s
  let s ← removeStaleConditions d s
  let s ← dropStaleGates d s
  addGates db d s

/-- `apply_model`: the store after it, and the version that it returns and records. -/
def applyModel [OrderBot Text] [DecidableEq J] (db : Database Text J) (now : ℤ) (reg : Registered Text J)
    (tenant : Tenant Text) (version : Option ℕ) (s : Store Text J) :
    Except (Refusal Text) (Store Text J × ℕ) :=
  match reg.resolve version with
  | none => .error (.noVersion version)
  | some v => do
    refuseIf (¬ reg.Applicable tenant) .notShared
    let s' ← syncModel db now v.definition s
    refuseIf (modelChecksum (exportModel s') ≠ modelChecksum v.definition) .checksumMismatch
    return (s', v.version)

end Registry

end PgAuthz
