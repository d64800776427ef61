import PgAuthz.Registry.Functions

/-!
# What the model functions do

For each model function, the store it leaves and the condition under which it does not raise.  The later
modules know the functions by these equivalences alone.

A row *fits* a store when the function that writes it accepts it there: the names resolve, and the checks
that read only the row and the other tables pass.  The checks of a rule against its own group are kept
apart, since they read the table that is being written.

## Main definitions

* `Rule.Fits`, `Restriction.Fits`, `GrantRule.Fits`, `RelationConstraint.Fits`: a row that is accepted
* `Database.Compiles`: an expression that the trigger accepts
* `Store.Frees`: a type that nothing outside the model names

## Main results

* `modelAddRule_eq_ok_iff`, …, `addGate_eq_ok_iff`: one equivalence for each function
-/

namespace PgAuthz

namespace Registry

open Keyed

variable {Text J : Type} [LinearOrder Text] {db : Database Text J} {s s' : Store Text J}

/-! ## Resolving names -/

@[simp]
theorem requireType_eq_ok_iff {name : Text} {u : Unit} : s.requireType name = .ok u ↔ name ∈ s.typeNames := by
  simp [Store.requireType]

@[simp]
theorem requireRelation_eq_ok_iff {name : Text} {u : Unit} :
    s.requireRelation name = .ok u ↔ name ∈ s.relationNames := by
  simp [Store.requireRelation]

@[simp]
theorem requireRelations_eq_ok_iff {names : List Text} {u : Unit} :
    s.requireRelations names = .ok u ↔ ∀ name ∈ names, name ∈ s.relationNames := by
  induction names with
  | nil => simp [Store.requireRelations]
  | cons name names ih => simp [Store.requireRelations, bind_eq_ok_iff, ih]

theorem mem_typeNames {name : Text} : name ∈ s.typeNames ↔ ∃ t ∈ s.types, t.name = name := by
  simp [Store.typeNames, Table.mem_def]

theorem mem_relationNames {name : Text} : name ∈ s.relationNames ↔ ∃ r ∈ s.relations, r.name = name := by
  simp [Store.relationNames, Table.mem_def]

theorem mem_conditionNames {name : Text} : name ∈ s.conditionNames ↔ ∃ c ∈ s.conditions, c.name = name := by
  simp [Store.conditionNames, Table.mem_def]

theorem relation?_eq_some_iff {name : Text} {r : RelationRow Text J} :
    s.relation? name = some r ↔ r ∈ s.relations ∧ r.name = name :=
  Table.find?_eq_some_iff

theorem relation?_eq_none_iff {name : Text} : s.relation? name = none ↔ name ∉ s.relationNames := by
  simp [Store.relation?, Store.relationNames]

/-! ## Types -/

theorem modelRegisterType_eq_ok_iff {t : TypeRow Text} :
    modelRegisterType s t = .ok s' ↔ t.name ∉ s.typeNames ∧ s' = { s with types := s.types.upsert t } := by
  simp only [modelRegisterType, bind_eq_ok_iff, refuseIf_eq_ok, pure_eq_ok, exists_const]

theorem updateType_eq_ok_iff {name : Text} {f : TypeRow Text → TypeRow Text} :
    updateType s name f = .ok s' ↔
      ∃ t ∈ s.types, t.name = name ∧ s' = { s with types := s.types.upsert { f t with name } } := by
  unfold updateType
  split
  next hnone =>
    have hno : ∀ t ∈ s.types, t.name ≠ name := by simpa [Table.mem_def] using hnone
    refine ⟨fun h => (nomatch h), ?_⟩
    rintro ⟨t, ht, hname, _⟩
    exact absurd hname (hno t ht)
  next t hsome =>
    obtain ⟨ht, hname⟩ := Table.find?_eq_some_iff.mp hsome
    simp only [Except.ok.injEq]
    constructor
    · rintro rfl
      exact ⟨t, ht, hname, rfl⟩
    · rintro ⟨t', ht', hname', rfl⟩
      rw [Table.eq_of_key ht' ht (hname'.trans hname.symm)]

/-- Nothing outside the model names the type: no gate is on it, and no event and no tuple names it. -/
def Store.Frees (s : Store Text J) (name : Text) : Prop :=
  (∀ g ∈ s.gates, g.objectType ≠ name) ∧ (∀ e ∈ s.events, ¬ e.NamesType name) ∧ ∀ t ∈ s.tuples, ¬ t.NamesType name

theorem typeGates_eq_zero_iff {name : Text} : s.typeGates name = 0 ↔ ∀ g ∈ s.gates, g.objectType ≠ name := by
  simp [Store.typeGates, Table.mem_def]

theorem typeEvents_eq_zero_iff {name : Text} : s.typeEvents name = 0 ↔ ∀ e ∈ s.events, ¬ e.NamesType name := by
  simp [Store.typeEvents]

theorem typeTuples_eq_zero_iff {name : Text} : s.typeTuples name = 0 ↔ ∀ t ∈ s.tuples, ¬ t.NamesType name := by
  simp [Store.typeTuples]

theorem relationTuples_eq_zero_iff {name : Text} :
    s.relationTuples name = 0 ↔ ∀ t ∈ s.tuples, ¬ t.NamesRelation name := by
  simp [Store.relationTuples]

/-! ## Rules -/

theorem groupHasBase_iff {rules : Table (@Rule.key Text)} {group : Text × Text × ℤ} :
    GroupHasBase rules group ↔ ∀ m ∈ rules, m.group = group → m.negated = true → HasBase rules group := by
  simp [GroupHasBase, Table.mem_def]

theorem insertRule_eq_ok_iff {rules rules' : Table (@Rule.key Text)} {r : Rule Text} :
    insertRule rules r = .ok rules' ↔
      ((r.negated = true → r.groupOp = .exclusion) ∧ (r.allowObjectWildcard = true → r.form = .direct)) ∧
        GroupHasBase (rules.upsert r) r.group ∧ rules' = rules.upsert r := by
  simp only [insertRule, bind_eq_ok_iff, refuseIf_eq_ok, pure_eq_ok, exists_const, not_and, not_not, ne_eq, and_assoc]

theorem deleteRules_eq_ok_iff {rules rules' : Table (@Rule.key Text)} {p : Rule Text → Prop} [DecidablePred p] :
    deleteRules rules p = .ok rules' ↔
      (∀ r ∈ rules, p r → GroupHasBase (rules.delete p) r.group) ∧ rules' = rules.delete p := by
  unfold deleteRules
  split
  next r hsome =>
    have hr := List.mem_of_find?_eq_some hsome
    have hbad := List.find?_some hsome
    simp only [List.mem_filter, decide_eq_true_eq] at hr
    constructor
    · intro h
      cases h
    · intro h
      exact absurd (h.1 r hr.1 hr.2) (by simpa using hbad)
  next hnone =>
    have hall : ∀ r ∈ rules, p r → GroupHasBase (rules.delete p) r.group := by
      intro r hr hp
      simpa using List.find?_eq_none.mp hnone r (List.mem_filter.mpr ⟨hr, by simpa using hp⟩)
    simp only [pure_eq_ok]
    exact ⟨fun h => ⟨hall, h⟩, And.right⟩

/-- Rules of whole groups are deleted without an objection. -/
theorem deleteRules_eq_ok_of_groups {rules rules' : Table (@Rule.key Text)} {p : Rule Text → Prop} [DecidablePred p]
    (hp : ∀ r r' : Rule Text, r.group = r'.group → (p r ↔ p r')) :
    deleteRules rules p = .ok rules' ↔ rules' = rules.delete p := by
  rw [deleteRules_eq_ok_iff]
  refine and_iff_right fun r _ hr => groupHasBase_iff.mpr fun m hm hgroup _ => ?_
  obtain ⟨_, hm⟩ := Table.mem_delete.mp hm
  exact absurd ((hp m r hgroup).mpr hr) hm

/-- What `model_add_rule` asks of a rule apart from the rules that are in its group. -/
structure Rule.Fits (s : Store Text J) (r : Rule Text) : Prop where
  type : r.objectType ∈ s.typeNames
  relations : ∀ name ∈ r.relations, name ∈ s.relationNames
  negated : r.negated = true → r.groupOp = .exclusion
  objectWildcard : r.allowObjectWildcard = true → r.form = .direct
  uncapped : r.allowObjectWildcard = true → ¬ s.Capped r.objectType r.relation

theorem modelAddRule_eq_ok_iff {r : Rule Text} :
    modelAddRule s r = .ok s' ↔
      (r.Fits s ∧ (∀ m ∈ s.rules, m.group = r.group → m.groupOp = r.groupOp) ∧
        GroupHasBase (s.rules.upsert r) r.group) ∧ s' = { s with rules := s.rules.upsert r } := by
  simp only [modelAddRule, bind_eq_ok_iff, insertRule_eq_ok_iff, requireType_eq_ok_iff,
    requireRelations_eq_ok_iff, refuseIf_eq_ok, pure_eq_ok, exists_const]
  constructor
  · rintro ⟨htype, hrel, _, hcap, hop, _, ⟨⟨hneg, hwild⟩, hbase, rfl⟩, rfl⟩
    refine ⟨⟨⟨htype, hrel, hneg, hwild, fun h hc => hcap ⟨h, hc⟩⟩, fun m hm hgroup => ?_, hbase⟩, rfl⟩
    by_contra hne
    exact hop ⟨m, hm, hgroup, hne⟩
  · rintro ⟨⟨hfits, hop, hbase⟩, rfl⟩
    refine ⟨hfits.type, hfits.relations, fun h => h.2 (hfits.objectWildcard h.1),
      fun h => hfits.uncapped h.1 h.2, ?_, _, ⟨⟨hfits.negated, hfits.objectWildcard⟩, hbase, rfl⟩, rfl⟩
    rintro ⟨m, hm, hgroup, hne⟩
    exact hne (hop m hm hgroup)

theorem modelRemoveRule_eq_ok_iff {r : Rule Text} :
    modelRemoveRule s r = .ok s' ↔
      (∀ m ∈ s.rules, m.key = r.key → GroupHasBase (s.rules.delete fun m => m.key = r.key) m.group) ∧
        s' = { s with rules := s.rules.delete fun m => m.key = r.key } := by
  simp only [modelRemoveRule, bind_eq_ok_iff, deleteRules_eq_ok_iff, pure_eq_ok, and_assoc, exists_and_left,
    exists_eq_left]

theorem modelRemoveRules_eq_ok_iff {objectType relation : Text} :
    modelRemoveRules s objectType relation = .ok s' ↔
      (objectType ∈ s.typeNames ∧ relation ∈ s.relationNames) ∧
        s' = { s with
          rules := s.rules.delete fun m => m.objectType = objectType ∧ m.relation = relation
          restrictions := s.restrictions.delete fun x => x.objectType = objectType ∧ x.relation = relation } := by
  have hgroups : ∀ r r' : Rule Text, r.group = r'.group →
      (r.objectType = objectType ∧ r.relation = relation ↔ r'.objectType = objectType ∧ r'.relation = relation) := by
    intro r r' h
    simp only [Rule.group, Prod.mk.injEq] at h
    rw [h.1, h.2.1]
  simp only [modelRemoveRules, bind_eq_ok_iff, deleteRules_eq_ok_of_groups hgroups, requireType_eq_ok_iff,
    requireRelation_eq_ok_iff, pure_eq_ok, exists_const, exists_eq_left, and_assoc]

/-- The store without some of its types and what the model says about them. -/
def Store.withoutTypes (s : Store Text J) (names : List Text) : Store Text J :=
  { s with
    grantRules := s.grantRules.delete fun g => g.objectType ∈ names
    constraints := s.constraints.delete fun c => c.objectType ∈ names
    restrictions := s.restrictions.delete fun x => x.objectType ∈ names ∨ x.allowedUserType ∈ names
    rules := s.rules.delete fun m => m.objectType ∈ names
    types := s.types.delete fun t => t.name ∈ names }

theorem modelRemoveType_eq_ok_iff {name : Text} {force : Bool} :
    modelRemoveType s name force = .ok s' ↔
      (name ∈ s.typeNames ∧ (∀ g ∈ s.gates, g.objectType ≠ name) ∧ (∀ e ∈ s.events, ¬ e.NamesType name) ∧
        (force = false → ∀ t ∈ s.tuples, ¬ t.NamesType name)) ∧
      s' = { s.withoutTypes [name] with tuples := s.tuples.filter fun t => ¬ t.NamesType name } := by
  have hgroups : ∀ r r' : Rule Text, r.group = r'.group → (r.objectType = name ↔ r'.objectType = name) := by
    intro r r' h
    simp only [Rule.group, Prod.mk.injEq] at h
    rw [h.1]
  simp only [modelRemoveType, bind_eq_ok_iff, deleteRules_eq_ok_of_groups hgroups, requireType_eq_ok_iff,
    refuseIf_eq_ok, pure_eq_ok, exists_const, exists_eq_left, and_assoc, Nat.pos_iff_ne_zero, not_and, not_not,
    ne_eq, typeGates_eq_zero_iff, typeEvents_eq_zero_iff, Store.withoutTypes, List.mem_singleton]
  refine and_congr_right fun _ => and_congr_right fun _ => and_congr_right fun _ => and_congr_left fun _ => ?_
  rw [← typeTuples_eq_zero_iff]
  cases force <;> simp

/-- Without force, a type that nothing names takes no tuple with it. -/
theorem modelRemoveType_false_eq_ok_iff {name : Text} :
    modelRemoveType s name false = .ok s' ↔
      (name ∈ s.typeNames ∧ s.Frees name) ∧ s' = s.withoutTypes [name] := by
  rw [modelRemoveType_eq_ok_iff, Store.Frees]
  simp only [true_imp_iff]
  refine and_congr_right fun ⟨_, _, _, htuples⟩ => ?_
  rw [List.filter_eq_self.mpr fun t ht => by simpa using htuples t ht]
  rfl

/-! ## Relations -/

@[simp]
theorem writeRelation_eq_ok_iff {r : RelationRow Text J} :
    writeRelation db s r = .ok s' ↔
      db.metadataCheck r.metadata = true ∧ s' = { s with relations := s.relations.upsert r } := by
  simp only [writeRelation, bind_eq_ok_iff, refuseIf_eq_ok, pure_eq_ok, exists_const, Bool.not_eq_false]

theorem updateRelation_eq_ok_iff {name : Text} {f : RelationRow Text J → RelationRow Text J} :
    updateRelation db s name f = .ok s' ↔
      ∃ r ∈ s.relations, r.name = name ∧ db.metadataCheck (f r).metadata = true ∧
        s' = { s with relations := s.relations.upsert { f r with name } } := by
  unfold updateRelation
  split
  next hnone =>
    refine ⟨fun h => (nomatch h), ?_⟩
    rintro ⟨r, hr, hname, _⟩
    exact absurd (mem_relationNames.mpr ⟨r, hr, hname⟩) (relation?_eq_none_iff.mp hnone)
  next r hsome =>
    obtain ⟨hr, hname⟩ := relation?_eq_some_iff.mp hsome
    rw [writeRelation_eq_ok_iff]
    constructor
    · rintro ⟨hcheck, rfl⟩
      exact ⟨r, hr, hname, hcheck, rfl⟩
    · rintro ⟨r', hr', hname', hcheck, rfl⟩
      rw [← Table.eq_of_key hr' hr (hname'.trans hname.symm)]
      exact ⟨hcheck, rfl⟩

theorem modelSetPayloadSchema_eq_ok_iff {name : Text} {payloadSchema : Option J} :
    modelSetPayloadSchema db s name payloadSchema = .ok s' ↔
      (∀ j ∈ payloadSchema, db.validatePayloadSchema j = true) ∧
        ∃ r ∈ s.relations, r.name = name ∧ db.metadataCheck r.metadata = true ∧
          s' = { s with relations := s.relations.upsert { r with name, payloadSchema } } := by
  simp only [modelSetPayloadSchema, bind_eq_ok_iff, updateRelation_eq_ok_iff, refuseIf_eq_ok, exists_const,
    not_exists, not_and, Bool.not_eq_false]

/-- The row that `model_register_relation` writes without metadata. -/
theorem modelRegisterRelation_none_eq_ok {name : Text}
    (hmetadata : ∀ r ∈ s.relations, r.name = name → db.metadataCheck r.metadata = true)
    (description : Option Text) :
    ∃ r : RelationRow Text J, r.name = name ∧ db.metadataCheck r.metadata = true ∧
      modelRegisterRelation db s name description none = .ok { s with relations := s.relations.upsert r } := by
  cases hfind : s.relation? name with
  | none =>
    refine ⟨⟨name, description, none, db.emptyMetadata⟩, rfl, db.metadataCheck_empty, ?_⟩
    simp [modelRegisterRelation, bind_eq_ok_iff, hfind, db.metadataCheck_empty]
  | some r =>
    obtain ⟨hr, hname⟩ := relation?_eq_some_iff.mp hfind
    refine ⟨{ r with name, description := description <|> r.description }, rfl, hmetadata r hr hname, ?_⟩
    simp [modelRegisterRelation, bind_eq_ok_iff, hfind, hmetadata r hr hname]

/-! ## Facets, grant rules and constraints -/

/-- What `model_add_type_restriction` asks of a facet. -/
structure Restriction.Fits (s : Store Text J) (x : Restriction Text) : Prop where
  type : x.objectType ∈ s.typeNames
  userType : x.allowedUserType ∈ s.typeNames
  relations : ∀ name ∈ x.relations, name ∈ s.relationNames
  wildcard : x.allowWildcard = true → x.allowedUserRelation = none
  uncapped : x.allowWildcard = true → ¬ s.Capped x.objectType x.relation
  condition : ∀ c ∈ x.condition, c ∈ s.conditionNames

theorem modelAddTypeRestriction_eq_ok_iff {x : Restriction Text} :
    modelAddTypeRestriction s x = .ok s' ↔
      x.Fits s ∧ s' = { s with restrictions := s.restrictions.upsert x } := by
  have hnone : x.condition.filter (· ∉ s.conditionNames) = none ↔ ∀ c ∈ x.condition, c ∈ s.conditionNames := by
    cases x.condition <;> simp [Option.filter]
  cases hfilter : x.condition.filter (· ∉ s.conditionNames) with
  | some c =>
    have hunknown : ¬ ∀ c ∈ x.condition, c ∈ s.conditionNames := by
      rw [← hnone, hfilter]
      exact Option.some_ne_none c
    simp only [modelAddTypeRestriction, bind_eq_ok_iff, hfilter, reduceCtorEq, and_false, exists_false, false_iff]
    exact fun h => hunknown h.1.condition
  | none =>
    simp only [modelAddTypeRestriction, bind_eq_ok_iff, requireType_eq_ok_iff, requireRelations_eq_ok_iff,
      refuseIf_eq_ok, exists_const, hfilter, pure_eq_ok]
    constructor
    · rintro ⟨htype, huser, hrel, hset, hcap, rfl⟩
      refine ⟨⟨htype, huser, hrel, fun h => ?_, fun h hc => hcap ⟨h, hc⟩, hnone.mp hfilter⟩, rfl⟩
      by_contra hne
      exact hset ⟨h, Option.isSome_iff_ne_none.mpr hne⟩
    · rintro ⟨hfits, rfl⟩
      refine ⟨hfits.type, hfits.userType, hfits.relations, fun h => ?_, fun h => hfits.uncapped h.1 h.2, rfl⟩
      simp [hfits.wildcard h.1] at h

/-- What `model_add_grant_rule` asks of a grant rule. -/
structure GrantRule.Fits (s : Store Text J) (g : GrantRule Text) : Prop where
  type : g.objectType ∈ s.typeNames
  relations : ∀ name ∈ g.relations, name ∈ s.relationNames
  other : g.requires ≠ g.relation

theorem modelAddGrantRule_eq_ok_iff {g : GrantRule Text} :
    modelAddGrantRule s g = .ok s' ↔ g.Fits s ∧ s' = { s with grantRules := s.grantRules.upsert g } := by
  simp only [modelAddGrantRule, bind_eq_ok_iff, requireType_eq_ok_iff, requireRelations_eq_ok_iff,
    refuseIf_eq_ok, pure_eq_ok, exists_const]
  constructor
  · rintro ⟨htype, hrel, hother, rfl⟩
    exact ⟨⟨htype, hrel, hother⟩, rfl⟩
  · rintro ⟨hfits, rfl⟩
    exact ⟨hfits.type, hfits.relations, hfits.other, rfl⟩

/-- Some bound is set, each is at least one, and the floor is at most the cap. -/
def RelationConstraint.Bounded (c : RelationConstraint Text) : Prop :=
  c.bounds ≠ [] ∧ (∀ b ∈ c.bounds, 1 ≤ b) ∧ ∀ m ∈ c.minDirect, ∀ n ∈ c.maxDirect, m ≤ n

/-- What `model_set_relation_constraint` asks of a constraint. -/
structure RelationConstraint.Fits (now : ℤ) (s : Store Text J) (c : RelationConstraint Text) : Prop where
  type : c.objectType ∈ s.typeNames
  relation : c.relation ∈ s.relationNames
  bounded : c.Bounded
  direct : c.minDirect.isSome ∨ c.maxDirect.isSome → s.HasDirectRule c.objectType c.relation
  declared : c.maxDirect.isSome → ¬ s.AllowsWildcards c.objectType c.relation
  stored : c.maxDirect.isSome → ¬ s.HoldsWildcards now c.objectType c.relation

theorem modelSetRelationConstraint_eq_ok_iff {now : ℤ} {c : RelationConstraint Text} :
    modelSetRelationConstraint now s c = .ok s' ↔
      c.Fits now s ∧ s' = { s with constraints := s.constraints.upsert c } := by
  simp only [modelSetRelationConstraint, bind_eq_ok_iff, requireType_eq_ok_iff, requireRelation_eq_ok_iff,
    refuseIf_eq_ok, pure_eq_ok, exists_const]
  constructor
  · rintro ⟨htype, hrel, hsome, hone, hle, hmin, hmax, hdeclared, hstored, rfl⟩
    refine ⟨⟨htype, hrel, ⟨hsome, fun b hb => ?_, fun m hm n hn => ?_⟩, ?_, fun h hw => hdeclared ⟨h, hw⟩,
      fun h hw => hstored ⟨h, hw⟩⟩, rfl⟩
    · by_contra hlt
      exact hone ⟨b, hb, by omega⟩
    · by_contra hlt
      exact hle ⟨m, hm, n, hn, by omega⟩
    · rintro (h | h) <;> by_contra hno
      · exact hmin ⟨h, hno⟩
      · exact hmax ⟨h, hno⟩
  · rintro ⟨hfits, rfl⟩
    obtain ⟨hsome, hone, hle⟩ := hfits.bounded
    refine ⟨hfits.type, hfits.relation, hsome, ?_, ?_, fun h => h.2 (hfits.direct (.inl h.1)),
      fun h => h.2 (hfits.direct (.inr h.1)), fun h => hfits.declared h.1 h.2, fun h => hfits.stored h.1 h.2, rfl⟩
    · rintro ⟨b, hb, hlt⟩
      have := hone b hb
      omega
    · rintro ⟨m, hm, n, hn, hlt⟩
      have := hle m hm n hn
      omega

/-! ## Conditions and gates -/

/-- The trigger on the conditions accepts the expression. -/
def Database.Compiles (db : Database Text J) (c : ConditionRow Text J) : Prop :=
  match c.lang with
  | .sql => db.sqlCompiles c.expression = true
  | .cel => db.celInstalled = true ∧ db.celCompiles c.expression = true

omit [LinearOrder Text] in
theorem validateConditionExpression_eq_ok_iff {c : ConditionRow Text J} {u : Unit} :
    validateConditionExpression db c = .ok u ↔ db.Compiles c := by
  cases hlang : c.lang <;> simp [validateConditionExpression, Database.Compiles, hlang, bind_eq_ok_iff]

theorem createCondition_eq_ok_iff [OrderBot Text] {c : ConditionRow Text J} :
    createCondition db s c = .ok s' ↔
      db.Compiles (c.stored db s) ∧ s' = { s with conditions := s.conditions.upsert (c.stored db s) } := by
  simp only [createCondition, bind_eq_ok_iff, validateConditionExpression_eq_ok_iff, pure_eq_ok, exists_const]

theorem deleteCondition_eq_ok_iff {name : Text} :
    deleteCondition s name = .ok s' ↔
      (∀ x ∈ s.restrictions, x.condition ≠ some name) ∧
        s' = { s with conditions := s.conditions.delete fun c => c.name = name } := by
  simp only [deleteCondition, bind_eq_ok_iff, refuseIf_eq_ok, pure_eq_ok, exists_const, not_exists, not_and,
    Table.mem_def, ne_eq]

/-- The gate as the table stores it: its spec normalised twice under a vocabulary. -/
def GateRow.normalized (db : Database Text J) (vocabulary : Text → Option (Option J)) (g : GateRow Text J) :
    Option (GateRow Text J) :=
  ((db.validateGateSpec vocabulary g.spec g.relation).bind
    fun spec => db.validateGateSpec vocabulary spec g.relation).map fun spec => { g with spec }

theorem addGate_eq_ok_iff {g : GateRow Text J} :
    addGate db s g = .ok s' ↔
      (g.objectType ∈ s.typeNames ∧ g.relation ∈ s.relationNames ∧ db.gateName g.name = true) ∧
        ∃ x, g.normalized db s.payloadSchema? = some x ∧ s' = { s with gates := s.gates.upsert x } := by
  have hspec : ∀ spec spec', normalizeSpec db s g spec = .ok spec' ↔
      db.validateGateSpec s.payloadSchema? spec g.relation = some spec' := by
    intro spec spec'
    unfold normalizeSpec
    split <;> simp_all
  simp only [addGate, bind_eq_ok_iff, requireType_eq_ok_iff, requireRelation_eq_ok_iff, refuseIf_eq_ok,
    pure_eq_ok, exists_const, hspec, GateRow.normalized, Option.map_eq_some_iff, Option.bind_eq_some_iff,
    Bool.not_eq_false, and_assoc]
  refine and_congr_right fun _ => and_congr_right fun _ => and_congr_right fun _ => ?_
  constructor
  · rintro ⟨spec, hspec, spec', hspec', rfl⟩
    exact ⟨_, ⟨spec', ⟨spec, hspec, hspec'⟩, rfl⟩, rfl⟩
  · rintro ⟨_, ⟨spec', ⟨spec, hspec, hspec'⟩, rfl⟩, rfl⟩
    exact ⟨spec, hspec, spec', hspec', rfl⟩

theorem dropGate_eq_ok_iff {objectType relation name : Text} :
    dropGate s objectType relation name = .ok s' ↔
      (objectType ∈ s.typeNames ∧ relation ∈ s.relationNames) ∧
        s' = { s with gates :=
          s.gates.delete fun g => g.objectType = objectType ∧ g.relation = relation ∧ g.name = name } := by
  simp only [dropGate, bind_eq_ok_iff, requireType_eq_ok_iff, requireRelation_eq_ok_iff, pure_eq_ok, exists_const,
    and_assoc]

end Registry

end PgAuthz
