import PgAuthz.Registry.Outcomes
import PgAuthz.Registry.Apply

/-!
# What a definition satisfies

Three layers of conditions on a definition, each of them decided by the definition alone.

* A definition is *canonical* when its rows come as the export writes them: no two under one key, in the
  order of the keys, the labels of a type sorted.
* It is *sound* when it satisfies what the model functions keep whatever they are asked: the references are
  closed, a group of rules has one operator and, with a negated rule, a rule that is not, no capped relation
  takes wildcards, and every row passes its own checks.
* It is *complete* when, besides, every bound on direct tuples has a direct rule to count for, and every
  gate still normalises to itself under the payload schemas of the definition.  The model functions do not
  keep these: a rule may be removed from under its constraint, and a payload schema changed under a gate.

A store is *consistent* when it satisfies what its tables enforce, the foreign keys, the trigger on the
rules and the check on the metadata.

## Main definitions

* `Definition.Canonical`, `Definition.Sound`, `Definition.Complete`
* `Store.Consistent`
* `Definition.kept`, `Definition.BaseReady`: the rules that an `apply_model` keeps, and the order condition
  on the rules that it adds
-/

namespace PgAuthz

namespace Registry

open Keyed

variable {Text J : Type} [LinearOrder Text]

namespace Definition

/-- The rows come as the export writes them. -/
structure Canonical (d : Definition Text J) : Prop where
  types : d.typeNames.Nodup
  labels : ∀ t ∈ d.types, t.labels.Pairwise (· ≤ ·)
  relations : d.relations.Pairwise fun a b => a.name < b.name
  rules : d.rules.Pairwise fun a b => a.key < b.key
  restrictions : d.restrictions.Pairwise fun a b => a.key < b.key
  conditions : d.conditions.Pairwise fun a b => a.name < b.name
  gates : d.gates.Pairwise fun a b => a.key < b.key
  grantRules : d.grantRules.Pairwise fun a b => a.key < b.key
  constraints : d.constraints.Pairwise fun a b => a.key < b.key

/-- Every name that a row refers to is defined. -/
structure Closed (d : Definition Text J) : Prop where
  rule : ∀ r ∈ d.rules, r.objectType ∈ d.typeNames ∧ ∀ n ∈ r.relations, n ∈ d.relationNames
  restriction : ∀ x ∈ d.restrictions, (x.objectType ∈ d.typeNames ∧ x.allowedUserType ∈ d.typeNames) ∧
    (∀ n ∈ x.relations, n ∈ d.relationNames) ∧ ∀ c ∈ x.condition, c ∈ d.conditionNames
  grantRule : ∀ g ∈ d.grantRules, g.objectType ∈ d.typeNames ∧ ∀ n ∈ g.relations, n ∈ d.relationNames
  constraint : ∀ c ∈ d.constraints, c.objectType ∈ d.typeNames ∧ c.relation ∈ d.relationNames
  gate : ∀ g ∈ d.gates, g.objectType ∈ d.typeNames ∧ g.relation ∈ d.relationNames

/-- A capped relation takes no wildcards: neither a rule nor a facet promises one. -/
def Uncapped (d : Definition Text J) : Prop :=
  ∀ c ∈ d.constraints, c.maxDirect.isSome →
    (∀ r ∈ d.rules, r.objectType = c.objectType → r.relation = c.relation → r.allowObjectWildcard = false) ∧
      ∀ x ∈ d.restrictions, x.objectType = c.objectType → x.relation = c.relation → x.allowWildcard = false

end Definition

/-- The check constraint on the metadata of a relation, and the validation of its payload schema. -/
def RelationRow.Valid (db : Database Text J) (r : RelationRow Text J) : Prop :=
  db.metadataCheck r.metadata = true ∧ ∀ j ∈ r.payloadSchema, db.validatePayloadSchema j = true

/-- The row that a condition of a definition is stored as: the expression trimmed, an empty description
cleared. -/
def ConditionRow.normalized [OrderBot Text] (db : Database Text J) (c : ConditionRow Text J) :
    ConditionRow Text J :=
  { c with
    expression := db.btrim c.expression
    description := if c.description.getD ⊥ = ⊥ then none else c.description }

namespace Definition

/-- What a definition satisfies that reads nothing of the run of a condition or of the normal form of a row. -/
structure WellFormed (db : Database Text J) (d : Definition Text J) : Prop where
  closed : d.Closed
  groupOp : ∀ r ∈ d.rules, ∀ r' ∈ d.rules, r.group = r'.group → r.groupOp = r'.groupOp
  negated : ∀ r ∈ d.rules, r.negated = true → r.groupOp = .exclusion
  objectWildcard : ∀ r ∈ d.rules, r.allowObjectWildcard = true → r.form = .direct
  uncapped : d.Uncapped
  wildcard : ∀ x ∈ d.restrictions, x.allowWildcard = true → x.allowedUserRelation = none
  requires : ∀ g ∈ d.grantRules, g.requires ≠ g.relation
  bounded : ∀ c ∈ d.constraints, c.Bounded
  relation : ∀ r ∈ d.relations, r.Valid db
  gateName : ∀ g ∈ d.gates, db.gateName g.name = true

/-- What the model functions keep. -/
structure Sound [OrderBot Text] (db : Database Text J) (d : Definition Text J) : Prop
    extends d.WellFormed db where
  based : ∀ r ∈ d.rules, r.negated = true → ∃ b ∈ d.rules, b.group = r.group ∧ b.negated = false
  condition : ∀ c ∈ d.conditions, c.normalized db = c ∧ db.Compiles c

/-- The payload schema of a relation of the definition. -/
def payloadSchema? (d : Definition Text J) (name : Text) : Option (Option J) :=
  (d.relations.find? (·.name = name)).map RelationRow.payloadSchema

/-- A bound on the direct tuples of a relation has a direct rule to count for. -/
def Assigned (d : Definition Text J) : Prop :=
  ∀ c ∈ d.constraints, c.minDirect.isSome ∨ c.maxDirect.isSome →
    ∃ r ∈ d.rules, r.objectType = c.objectType ∧ r.relation = c.relation ∧ r.form = .direct

/-- Every bound has its direct rule, and every gate normalises to itself. -/
structure Complete (db : Database Text J) (d : Definition Text J) : Prop where
  direct : d.Assigned
  gates : ∀ g ∈ d.gates, g.normalized db d.payloadSchema? = some g

end Definition

/-- What the tables of a store enforce: the foreign keys, the trigger on the rules, the check on the
metadata. -/
structure Store.Consistent (db : Database Text J) (s : Store Text J) : Prop where
  closed : (exportModel s).Closed
  based : ∀ r ∈ s.rules, r.negated = true → HasBase s.rules r.group
  metadata : ∀ r ∈ s.relations, db.metadataCheck r.metadata = true

/-- Nothing outside the model names the relation: no gate is on it, and no tuple, event or recorder names it. -/
def Store.FreesRelation (s : Store Text J) (name : Text) : Prop :=
  (∀ t ∈ s.tuples, ¬ t.NamesRelation name) ∧ (∀ g ∈ s.gates, g.relation ≠ name) ∧
    (∀ e ∈ s.events, e.action ≠ name) ∧ name ∉ s.recorderActions

namespace Definition

variable (d : Definition Text J)

/-- The rules of a store that the definition keeps. -/
def kept (rules : Table (@Rule.key Text)) : Table (@Rule.key Text) := rules.delete fun m => ¬ d.KeepsRule m

@[simp]
theorem mem_kept {rules : Table (@Rule.key Text)} {m : Rule Text} : m ∈ d.kept rules ↔ m ∈ rules ∧ d.KeepsRule m := by
  simp [kept]

/-- The rules of the definition can be put in the place of those of the store, one after the other: for
every negated rule, the store keeps a base rule of its group, or it keeps no negated rule of the group and
the definition has a base rule of the group before it. -/
def BaseReady (rules : Table (@Rule.key Text)) : Prop :=
  ∀ r ∈ d.rules, r.negated = true →
    HasBase (d.kept rules) r.group ∨
      (∀ m ∈ (d.kept rules).rows, m.group = r.group → m.negated = false) ∧
        ∃ b ∈ d.rules, b.group = r.group ∧ b.negated = false ∧ b.key < r.key

instance (rules : Table (@Rule.key Text)) : Decidable (d.BaseReady rules) :=
  inferInstanceAs (Decidable (∀ r ∈ d.rules, _))

end Definition

/-- What a store must have for a definition to be applied to it: what is removed is free, the rules can be
exchanged, and no active wildcard tuple stands against a cap. -/
structure Store.Admits (now : ℤ) (d : Definition Text J) (s : Store Text J) : Prop where
  types : ∀ n ∈ s.typeNames, n ∉ d.typeNames → s.Frees n
  relations : ∀ n ∈ s.relationNames, n ∉ d.relationNames → s.FreesRelation n
  ready : d.BaseReady s.rules
  stored : ∀ c ∈ d.constraints, c.maxDirect.isSome → ¬ s.HoldsWildcards now c.objectType c.relation

end Registry

end PgAuthz
