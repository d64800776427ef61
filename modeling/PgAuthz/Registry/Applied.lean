import PgAuthz.Registry.Sync

/-!
# When `apply_model` succeeds, and what it leaves

The steps of `apply_model` are put together.  For a canonical definition the run is known from its
beginning: the store after each step is known, and what a step asks is a condition on the definition, a
condition on the store as it was, or both.  Two of the conditions come late.  That a rule names only
relations of the definition is not noticed when the rule is added, as the relation may still be there from
before; it is noticed when the stale relations are removed and the rule keeps one.  The same holds of the
conditions that facets require.

The check of the function on itself decides the rest: it passes only for a canonical definition whose
conditions and gates are stored as they are written.

## Main definitions

* `Definition.Accepted`: what the steps ask
* `Store.synced`: the store after the steps

## Main results

* `syncModel_eq_ok_iff`: the steps succeed under these conditions, and leave that store
* `exists_syncModel_iff`: with the check of itself, exactly for a canonical, sound and complete definition
  that the store admits
-/

namespace PgAuthz

namespace Registry

open Keyed

variable {Text J : Type} [LinearOrder Text] {db : Database Text J} {now : ℤ} {d : Definition Text J}
  {s s' : Store Text J}

/-! ## The tables on the way -/

/-- The types that the definition leaves out. -/
def Definition.stale (d : Definition Text J) (s : Store Text J) : List Text := s.typeNames.filter (· ∉ d.typeNames)

/-- The store without the stale types. -/
def Definition.cleared (d : Definition Text J) (s : Store Text J) : Store Text J := s.withoutTypes (d.stale s)

/-- The types after the steps: those of the definition, with the layout that the store has for them. -/
def Definition.syncedTypes (d : Definition Text J) (s : Store Text J) : Table (@TypeRow.name Text) :=
  (d.cleared s).types.upsertAll (d.types.map (TypeRow.laidOut (d.cleared s)))

/-- The constraints that the definition keeps. -/
def Definition.keptConstraints (d : Definition Text J) (s : Store Text J) : Table (@RelationConstraint.key Text) :=
  (d.cleared s).constraints.delete fun c => ¬ d.KeepsConstraint c

theorem mem_names_syncedTypes {n : Text} :
    n ∈ (d.syncedTypes s).rows.map TypeRow.name ↔ n ∈ d.typeNames := by
  have hkeys : n ∈ (d.syncedTypes s).rows.map TypeRow.name ↔ ∃ t ∈ d.syncedTypes s, t.name = n := List.mem_map
  rw [hkeys, Definition.syncedTypes, Table.exists_key_upsertAll]
  constructor
  · rintro (⟨t, ht, rfl⟩ | ⟨t, ht, rfl⟩)
    · obtain ⟨t', ht', rfl⟩ := List.mem_map.mp ht
      exact List.mem_map.mpr ⟨t', ht', rfl⟩
    · obtain ⟨ht, hfresh⟩ := Table.mem_delete.mp ht
      by_contra hstale
      exact hfresh (List.mem_filter.mpr ⟨mem_typeNames.mpr ⟨t, ht, rfl⟩, by simpa using hstale⟩)
  · intro hn
    obtain ⟨t, ht, rfl⟩ := List.mem_map.mp hn
    exact .inl ⟨_, List.mem_map_of_mem ht, rfl⟩

theorem mem_names_upsertAll_relations {n : Text} :
    n ∈ (s.relations.upsertAll d.relations).rows.map RelationRow.name ↔ n ∈ d.relationNames ∨ n ∈ s.relationNames := by
  have hkeys : n ∈ (s.relations.upsertAll d.relations).rows.map RelationRow.name ↔
      ∃ r ∈ s.relations.upsertAll d.relations, r.name = n := List.mem_map
  rw [hkeys, Table.exists_key_upsertAll, mem_relationNames, Definition.relationNames, List.mem_map]

theorem mem_names_upsertAll_conditions [OrderBot Text] {n : Text} :
    n ∈ (s.conditions.upsertAll (d.conditions.map (ConditionRow.normalized db))).rows.map ConditionRow.name ↔
      n ∈ d.conditionNames ∨ n ∈ s.conditionNames := by
  have hkeys : n ∈ (s.conditions.upsertAll (d.conditions.map (ConditionRow.normalized db))).rows.map
      ConditionRow.name ↔ ∃ c ∈ s.conditions.upsertAll (d.conditions.map (ConditionRow.normalized db)), c.name = n :=
    List.mem_map
  rw [hkeys, Table.exists_key_upsertAll, mem_conditionNames, Definition.conditionNames, List.mem_map]
  refine or_congr_left ⟨?_, ?_⟩
  · rintro ⟨_, hx, rfl⟩
    obtain ⟨c, hc, rfl⟩ := List.mem_map.mp hx
    exact ⟨c, hc, rfl⟩
  · rintro ⟨c, hc, rfl⟩
    exact ⟨_, List.mem_map_of_mem hc, rfl⟩

/-- The rules that the definition keeps are not on a stale type. -/
theorem kept_cleared (hclosed : ∀ r ∈ d.rules, r.objectType ∈ d.typeNames) :
    d.kept (d.cleared s).rules = d.kept s.rules := by
  refine Table.ext fun m => ?_
  rw [d.mem_kept, d.mem_kept]
  refine and_congr_left fun ⟨w, hw, hkey, _⟩ => Table.mem_delete.trans (and_iff_left fun hstale => ?_)
  have htype : w.objectType = m.objectType := congrArg Prod.fst (Rule.key_eq_iff.mp hkey).1
  have hgone : m.objectType ∉ d.typeNames := by simpa using (List.mem_filter.mp hstale).2
  exact hgone (htype ▸ hclosed w hw)

/-- With a type all of its groups go. -/
theorem based_cleared (hbased : ∀ r ∈ s.rules, r.negated = true → HasBase s.rules r.group) :
    ∀ r ∈ (d.cleared s).rules, r.negated = true → HasBase (d.cleared s).rules r.group := by
  intro r hr hneg
  obtain ⟨hr, hstays⟩ := Table.mem_delete.mp hr
  obtain ⟨b, hb, hgroup, hbneg⟩ := hasBase_iff.mp (hbased r hr hneg)
  have htype : b.objectType = r.objectType := congrArg Prod.fst hgroup
  exact ⟨b, Table.mem_delete.mpr ⟨hb, htype ▸ hstays⟩, hgroup, hbneg⟩

theorem baseReady_congr {rules rules' : Table (@Rule.key Text)} (h : d.kept rules = d.kept rules') :
    d.BaseReady rules ↔ d.BaseReady rules' := by
  unfold Definition.BaseReady
  rw [h]

/-! ## The store after the steps -/

theorem sorted_normalized [OrderBot Text] (hd : d.Canonical) :
    (d.conditions.map (ConditionRow.normalized db)).Pairwise fun a b => a.name < b.name :=
  List.pairwise_map.mpr (hd.conditions.imp fun h => h)

theorem sorted_normal (hd : d.Canonical) (vocabulary : Text → Option (Option J)) :
    (d.gates.map (GateRow.normal db vocabulary)).Pairwise fun a b => a.key < b.key :=
  List.pairwise_map.mpr (hd.gates.imp fun h => by simpa only [GateRow.key_normal] using h)

/-- The store between two steps: its tables as they are then, and what lies outside the model as it was. -/
def Store.between (s : Store Text J) (types : Table (@TypeRow.name Text)) (relations : Table (@RelationRow.name Text J))
    (rules : Table (@Rule.key Text)) (restrictions : Table (@Restriction.key Text))
    (conditions : Table (@ConditionRow.name Text J)) (grantRules : Table (@GrantRule.key Text))
    (constraints : Table (@RelationConstraint.key Text)) : Store Text J :=
  ⟨types, relations, rules, restrictions, conditions, s.gates, grantRules, constraints, s.tuples, s.events,
    s.recorderActions⟩

/-- The store after the steps: the model is that of the definition, its conditions and gates as they are
stored, and what lies outside the model is as it was. -/
def Store.synced [OrderBot Text] (db : Database Text J) (hd : d.Canonical) (s : Store Text J) : Store Text J where
  types := d.syncedTypes s
  relations := ⟨d.relations, hd.relations⟩
  rules := ⟨d.rules, hd.rules⟩
  restrictions := ⟨d.restrictions, hd.restrictions⟩
  conditions := ⟨d.conditions.map (ConditionRow.normalized db), sorted_normalized hd⟩
  gates := ⟨d.gates.map (GateRow.normal db d.payloadSchema?), sorted_normal hd d.payloadSchema?⟩
  grantRules := ⟨d.grantRules, hd.grantRules⟩
  constraints := ⟨d.constraints, hd.constraints⟩
  tuples := s.tuples
  events := s.events
  recorderActions := s.recorderActions

/-- What the steps ask: of the definition, and of the store. -/
structure Definition.Accepted [OrderBot Text] (db : Database Text J) (now : ℤ) (d : Definition Text J)
    (s : Store Text J) : Prop where
  wellFormed : d.WellFormed db
  assigned : d.Assigned
  compiles : ∀ c ∈ d.conditions, db.Compiles (c.normalized db)
  normalizes : ∀ g ∈ d.gates, (g.normalized db d.payloadSchema?).isSome
  admits : s.Admits now d

/-- The relations after the steps are those of the definition. -/
theorem relations_delete_upsertAll (hd : d.Canonical) :
    (s.relations.upsertAll d.relations).delete (fun r => r.name ∉ d.relationNames) = ⟨d.relations, hd.relations⟩ := by
  refine Table.ext fun r => ?_
  rw [Table.mem_def, Table.rows_delete_upsertAll hd.relations]
  · rfl
  · exact fun x hx hout => hout (List.mem_map_of_mem hx)
  · rintro x _ hne hin
    obtain ⟨y, hy, hname⟩ := List.mem_map.mp hin
    exact hne y hy hname

/-- The conditions after the steps are those of the definition, as they are stored. -/
theorem conditions_delete_upsertAll [OrderBot Text] (hd : d.Canonical) :
    (s.conditions.upsertAll (d.conditions.map (ConditionRow.normalized db))).delete
      (fun c => c.name ∉ d.conditionNames) =
      ⟨d.conditions.map (ConditionRow.normalized db), sorted_normalized hd⟩ := by
  refine Table.ext fun c => ?_
  rw [Table.mem_def, Table.rows_delete_upsertAll (sorted_normalized hd)]
  · rfl
  · intro x hx hout
    obtain ⟨y, hy, rfl⟩ := List.mem_map.mp hx
    exact hout (List.mem_map.mpr ⟨y, hy, rfl⟩)
  · rintro x _ hne hin
    obtain ⟨y, hy, hname⟩ := List.mem_map.mp hin
    exact hne _ (List.mem_map_of_mem hy) hname

theorem keptConstraints_subset : ∀ c ∈ d.keptConstraints s, ∃ x ∈ d.constraints, x.key = c.key := by
  intro c hc
  obtain ⟨x, hx, htype, hrelation, _⟩ := not_not.mp (Table.mem_delete.mp hc).2
  exact ⟨x, hx, by rw [RelationConstraint.key, RelationConstraint.key, htype, hrelation]⟩

/-! ## The steps -/

/-- The store before the rules of the definition are added. -/
def Store.beforeRules (d : Definition Text J) (s : Store Text J) : Store Text J :=
  s.between (d.syncedTypes s) (s.relations.upsertAll d.relations) (d.kept (d.cleared s).rules)
    (d.cleared s).restrictions s.conditions (d.cleared s).grantRules (d.keptConstraints s)

section Steps

variable [OrderBot Text]

/-- The store before its facets are brought in line. -/
def Store.beforeFacets (db : Database Text J) (hd : d.Canonical) (s : Store Text J) : Store Text J :=
  s.between (d.syncedTypes s) (s.relations.upsertAll d.relations) ⟨d.rules, hd.rules⟩
    (d.cleared s).restrictions (s.conditions.upsertAll (d.conditions.map (ConditionRow.normalized db)))
    (d.cleared s).grantRules (d.keptConstraints s)

/-- The store before its constraints are set. -/
def Store.beforeConstraints (db : Database Text J) (hd : d.Canonical) (s : Store Text J) : Store Text J :=
  s.between (d.syncedTypes s) (s.relations.upsertAll d.relations) ⟨d.rules, hd.rules⟩
    ⟨d.restrictions, hd.restrictions⟩ (s.conditions.upsertAll (d.conditions.map (ConditionRow.normalized db)))
    ⟨d.grantRules, hd.grantRules⟩ (d.keptConstraints s)

/-- The store before the stale relations and conditions are removed. -/
def Store.beforeRemoval (db : Database Text J) (hd : d.Canonical) (s : Store Text J) : Store Text J :=
  s.between (d.syncedTypes s) (s.relations.upsertAll d.relations) ⟨d.rules, hd.rules⟩
    ⟨d.restrictions, hd.restrictions⟩ (s.conditions.upsertAll (d.conditions.map (ConditionRow.normalized db)))
    ⟨d.grantRules, hd.grantRules⟩ ⟨d.constraints, hd.constraints⟩

/-- The store before its gates are brought in line. -/
def Store.beforeGates (db : Database Text J) (hd : d.Canonical) (s : Store Text J) : Store Text J :=
  s.between (d.syncedTypes s) ⟨d.relations, hd.relations⟩ ⟨d.rules, hd.rules⟩
    ⟨d.restrictions, hd.restrictions⟩ ⟨d.conditions.map (ConditionRow.normalized db), sorted_normalized hd⟩
    ⟨d.grantRules, hd.grantRules⟩ ⟨d.constraints, hd.constraints⟩

/-- What the steps ask, one after the other, each of the tables that it finds. -/
structure Definition.Passes (db : Database Text J) (now : ℤ) (d : Definition Text J) (hd : d.Canonical)
    (s : Store Text J) : Prop where
  types : ∀ n ∈ s.typeNames, n ∉ d.typeNames → s.Frees n
  relations : ∀ r ∈ d.relations, r.Valid db
  names : ∀ r ∈ d.rules, r.objectType ∈ (s.beforeRules d).typeNames ∧
    ∀ n ∈ r.relations, n ∈ (s.beforeRules d).relationNames
  keptBased : ∀ m ∈ d.kept (d.cleared s).rules, m.negated = true → HasBase (d.kept (d.cleared s).rules) m.group
  rules : ∀ r ∈ d.rules, r.Fits (s.beforeRules d)
  groupOp : ∀ r ∈ d.rules, ∀ r' ∈ d.rules, r.group = r'.group → r.groupOp = r'.groupOp
  based : ∀ r ∈ d.rules, r.negated = true → HasBase (d.kept (d.cleared s).rules) r.group ∨
    ∃ b ∈ d.rules, b.group = r.group ∧ b.negated = false ∧ b.key < r.key
  conditions : ∀ c ∈ d.conditions, db.Compiles (c.normalized db)
  restrictions : ∀ x ∈ d.restrictions, x.Fits (s.beforeFacets db hd)
  grantRules : ∀ g ∈ d.grantRules, g.Fits (s.beforeConstraints db hd)
  constraints : ∀ c ∈ d.constraints, c.Fits now (s.beforeConstraints db hd)
  staleRelations : ∀ n ∈ (s.beforeRemoval db hd).relationNames, n ∉ d.relationNames →
    (∀ t ∈ s.tuples, ¬ t.NamesRelation n) ∧ ¬ (s.beforeRemoval db hd).ReferencesRelation n
  staleConditions : ∀ n ∈ (s.beforeRemoval db hd).conditionNames, n ∉ d.conditionNames →
    ∀ x ∈ d.restrictions, x.condition ≠ some n
  gates : ∀ g ∈ d.gates, g.Fits db (s.beforeGates db hd)

/-- What is left when nothing stale is named from outside: the stale types and relations have no gate. -/
theorem gates_known_of_steps (hs : s.Consistent db) (hd : d.Canonical)
    (htypes : ∀ n ∈ s.typeNames, n ∉ d.typeNames → s.Frees n)
    (hrelations : ∀ n ∈ (s.beforeRemoval db hd).relationNames, n ∉ d.relationNames →
      (∀ t ∈ s.tuples, ¬ t.NamesRelation n) ∧ ¬ (s.beforeRemoval db hd).ReferencesRelation n) :
    ∀ g ∈ s.gates, g.objectType ∈ (s.beforeGates db hd).typeNames ∧
      g.relation ∈ (s.beforeGates db hd).relationNames := by
  intro g hg
  obtain ⟨htype, hrelation⟩ := hs.closed.gate g hg
  constructor
  · refine mem_names_syncedTypes.mpr ?_
    by_contra hstale
    have htype' : g.objectType ∈ s.typeNames := by
      simpa [Definition.typeNames, exportModel, Store.typeNames, Function.comp_def, TypeRow.exported] using htype
    exact (htypes g.objectType htype' hstale).1 g hg rfl
  · by_contra hstale
    have hthere : g.relation ∈ (s.beforeRemoval db hd).relationNames :=
      mem_names_upsertAll_relations.mpr (.inr hrelation)
    exact (hrelations g.relation hthere hstale).2 (.inr (.inr (.inr (.inr (.inl ⟨g, hg, rfl⟩)))))

/-- **The steps of `apply_model`**: they succeed when each finds what it asks, and what they leave is known from
the beginning. -/
theorem syncModel_eq_ok_iff_passes (hd : d.Canonical) (hs : s.Consistent db) :
    syncModel db now d s = .ok s' ↔ d.Passes db now hd s ∧ s' = s.synced db hd := by
  let b := d.cleared s
  let R := s.relations.upsertAll d.relations
  let s₁ := s.between b.types s.relations b.rules b.restrictions s.conditions b.grantRules b.constraints
  let s₂ := s.between (d.syncedTypes s) s.relations b.rules b.restrictions s.conditions b.grantRules b.constraints
  let s₃ := s.between (d.syncedTypes s) R b.rules b.restrictions s.conditions b.grantRules b.constraints
  let s₅ := s.between (d.syncedTypes s) R ⟨d.rules, hd.rules⟩ b.restrictions s.conditions b.grantRules
    (d.keptConstraints s)
  have step₁ : ∀ {t}, removeStaleTypes d s = .ok t ↔ _ ∧ t = s₁ := removeStaleTypes_eq_ok_iff
  have step₂ : ∀ {t}, syncTypes d s₁ = .ok t ↔ t = s₂ := syncTypes_eq_ok_iff hd.types
  have hmeta : ∀ x ∈ s₂.relations, db.metadataCheck x.metadata = true := hs.metadata
  have step₃ : ∀ {t}, syncRelations db d s₂ = .ok t ↔ _ ∧ t = s₃ := syncRelations_eq_ok_iff hd.relations hmeta
  have hbased : ∀ r ∈ (dropStaleConstraints d s₃).rules, r.negated = true →
      HasBase (dropStaleConstraints d s₃).rules r.group := based_cleared hs.based
  have step₄ : ∀ {t}, deleteStaleRules d (dropStaleConstraints d s₃) = .ok t ↔ _ ∧ t = s.beforeRules d :=
    deleteStaleRules_eq_ok_iff hbased
  have hkept : ∀ m ∈ (s.beforeRules d).rules, d.KeepsRule m := fun m hm => (d.mem_kept.mp hm).2
  have step₆ : ∀ {t}, syncConditions db d s₅ = .ok t ↔ _ ∧ t = s.beforeFacets db hd := syncConditions_eq_ok_iff
  have hconstraints : ∀ c ∈ (s.beforeConstraints db hd).constraints, ∃ x ∈ d.constraints, x.key = c.key :=
    keptConstraints_subset
  have step₁₀ : ∀ {t}, setConstraints now d (s.beforeConstraints db hd) = .ok t ↔ _ ∧ t = s.beforeRemoval db hd :=
    setConstraints_eq_ok_iff hd.constraints hconstraints
  let s₈ := s.between (d.syncedTypes s) R ⟨d.rules, hd.rules⟩ ⟨d.restrictions, hd.restrictions⟩
    (s.conditions.upsertAll (d.conditions.map (ConditionRow.normalized db))) b.grantRules (d.keptConstraints s)
  have step₈ : ∀ {t}, (deleteStaleRestrictions d (s.beforeFacets db hd) >>= addRestrictions d) = .ok t ↔
      _ ∧ t = s₈ := syncRestrictions_eq_ok_iff hd.restrictions
  have step₉ : ∀ {t}, addGrantRules d (dropStaleGrantRules d s₈) = .ok t ↔ _ ∧ t = s.beforeConstraints db hd :=
    syncGrantRules_eq_ok_iff hd.grantRules
  let s₁₁ := s.between (d.syncedTypes s) ⟨d.relations, hd.relations⟩ ⟨d.rules, hd.rules⟩
    ⟨d.restrictions, hd.restrictions⟩ (s.conditions.upsertAll (d.conditions.map (ConditionRow.normalized db)))
    ⟨d.grantRules, hd.grantRules⟩ ⟨d.constraints, hd.constraints⟩
  have hs₁₁ : { s.beforeRemoval db hd with
      relations := (s.beforeRemoval db hd).relations.delete fun r => r.name ∉ d.relationNames } = s₁₁ :=
    congrArg (fun x : Table RelationRow.name => { s.beforeRemoval db hd with relations := x })
      (relations_delete_upsertAll hd)
  have step₁₁ : ∀ {t}, removeStaleRelations d (s.beforeRemoval db hd) = .ok t ↔
      (∀ n ∈ (s.beforeRemoval db hd).relationNames, n ∉ d.relationNames →
        (∀ t ∈ s.tuples, ¬ t.NamesRelation n) ∧ ¬ (s.beforeRemoval db hd).ReferencesRelation n) ∧ t = s₁₁ := by
    intro t
    rw [← hs₁₁]
    exact removeStaleRelations_eq_ok_iff
  have hs₁₂ : { s₁₁ with conditions := s₁₁.conditions.delete fun c => c.name ∉ d.conditionNames } =
      s.beforeGates db hd :=
    congrArg (fun x : Table ConditionRow.name => { s₁₁ with conditions := x }) (conditions_delete_upsertAll hd)
  have step₁₂ : ∀ {t}, removeStaleConditions d s₁₁ = .ok t ↔
      (∀ n ∈ (s.beforeRemoval db hd).conditionNames, n ∉ d.conditionNames →
        ∀ x ∈ d.restrictions, x.condition ≠ some n) ∧ t = s.beforeGates db hd := by
    intro t
    rw [← hs₁₂]
    exact removeStaleConditions_eq_ok_iff
  constructor
  · intro h
    obtain ⟨_, h₁, h⟩ := bind_eq_ok_iff.mp h
    obtain ⟨htypes, rfl⟩ := step₁.mp h₁
    obtain ⟨_, h₂, h⟩ := bind_eq_ok_iff.mp h
    obtain rfl := step₂.mp h₂
    obtain ⟨_, h₃, h⟩ := bind_eq_ok_iff.mp h
    obtain ⟨hrelations, rfl⟩ := step₃.mp h₃
    obtain ⟨_, h₄, h⟩ := bind_eq_ok_iff.mp h
    obtain ⟨⟨hnames, hkeptBased⟩, rfl⟩ := step₄.mp h₄
    obtain ⟨_, h₅, h⟩ := bind_eq_ok_iff.mp h
    obtain ⟨⟨hrules, hop, hbasedRules⟩, rfl⟩ := (addRules_eq_ok_iff hd.rules hkept hkeptBased).mp h₅
    obtain ⟨_, h₆, h⟩ := bind_eq_ok_iff.mp h
    obtain ⟨hconditions, rfl⟩ := step₆.mp h₆
    obtain ⟨_, h₇, h⟩ := bind_eq_ok_iff.mp h
    obtain ⟨_, h₈, h⟩ := bind_eq_ok_iff.mp h
    obtain ⟨hrestrictions, rfl⟩ := step₈.mp (bind_eq_ok_iff.mpr ⟨_, h₇, h₈⟩)
    obtain ⟨_, h₉, h⟩ := bind_eq_ok_iff.mp h
    obtain ⟨hgrants, rfl⟩ := step₉.mp h₉
    obtain ⟨_, h₁₀, h⟩ := bind_eq_ok_iff.mp h
    obtain ⟨hset, rfl⟩ := step₁₀.mp h₁₀
    obtain ⟨_, h₁₁, h⟩ := bind_eq_ok_iff.mp h
    obtain ⟨hstale, rfl⟩ := step₁₁.mp h₁₁
    obtain ⟨_, h₁₂, h⟩ := bind_eq_ok_iff.mp h
    obtain ⟨hstaleConditions, rfl⟩ := step₁₂.mp h₁₂
    -- the gates of the store are on what is left
    obtain ⟨hgates, rfl⟩ := (syncGates_eq_ok_iff hd.gates (gates_known_of_steps hs hd htypes hstale)).mp h
    have hgrants' : ∀ g ∈ d.grantRules, g.Fits (s.beforeConstraints db hd) := fun g hg =>
      ⟨(hgrants g hg).type, (hgrants g hg).relations, (hgrants g hg).other⟩
    exact ⟨⟨htypes, hrelations, hnames, hkeptBased, hrules, hop, hbasedRules, hconditions, hrestrictions, hgrants',
      hset, hstale, hstaleConditions, hgates⟩, rfl⟩
  · rintro ⟨h, rfl⟩
    have hgates := (syncGates_eq_ok_iff hd.gates (gates_known_of_steps hs hd h.types h.staleRelations)).mpr
      ⟨h.gates, rfl⟩
    obtain ⟨_, h₇, h₈⟩ := bind_eq_ok_iff.mp (step₈.mpr ⟨h.restrictions, rfl⟩)
    refine bind_eq_ok_iff.mpr ⟨_, step₁.mpr ⟨h.types, rfl⟩, ?_⟩
    refine bind_eq_ok_iff.mpr ⟨_, step₂.mpr rfl, ?_⟩
    refine bind_eq_ok_iff.mpr ⟨_, step₃.mpr ⟨h.relations, rfl⟩, ?_⟩
    refine bind_eq_ok_iff.mpr ⟨_, step₄.mpr ⟨⟨h.names, h.keptBased⟩, rfl⟩, ?_⟩
    refine bind_eq_ok_iff.mpr ⟨s₅, (addRules_eq_ok_iff hd.rules hkept h.keptBased).mpr
      ⟨⟨h.rules, h.groupOp, h.based⟩, rfl⟩, ?_⟩
    refine bind_eq_ok_iff.mpr ⟨_, step₆.mpr ⟨h.conditions, rfl⟩, ?_⟩
    refine bind_eq_ok_iff.mpr ⟨_, h₇, ?_⟩
    refine bind_eq_ok_iff.mpr ⟨_, h₈, ?_⟩
    refine bind_eq_ok_iff.mpr ⟨_, step₉.mpr ⟨fun g hg =>
      ⟨(h.grantRules g hg).type, (h.grantRules g hg).relations, (h.grantRules g hg).other⟩, rfl⟩, ?_⟩
    refine bind_eq_ok_iff.mpr ⟨_, step₁₀.mpr ⟨h.constraints, rfl⟩, ?_⟩
    refine bind_eq_ok_iff.mpr ⟨_, step₁₁.mpr ⟨h.staleRelations, rfl⟩, ?_⟩
    refine bind_eq_ok_iff.mpr ⟨_, step₁₂.mpr ⟨h.staleConditions, rfl⟩, ?_⟩
    exact hgates

/-- The names that the steps know until the stale ones go. -/
theorem Definition.Passes.closed {hd : d.Canonical} (h : d.Passes db now hd s) : d.Closed := by
  -- a stale relation or condition that a row of the definition names would not be removed
  have hrelation : ∀ {n}, n ∈ (s.beforeRemoval db hd).relationNames →
      (s.beforeRemoval db hd).ReferencesRelation n → n ∈ d.relationNames := by
    intro n hn href
    by_contra hstale
    exact (h.staleRelations n hn hstale).2 href
  have hcondition : ∀ {x : Restriction Text} {n}, n ∈ (s.beforeRemoval db hd).conditionNames → x ∈ d.restrictions →
      x.condition = some n → n ∈ d.conditionNames := by
    intro x n hn hx hxn
    by_contra hstale
    exact h.staleConditions n hn hstale x hx hxn
  refine ⟨fun r hr => ?_, fun x hx => ?_, fun g hg => ?_, fun c hc => ?_, fun g hg => ?_⟩
  · obtain ⟨htype, hnames⟩ := h.names r hr
    exact ⟨mem_names_syncedTypes.mp htype, fun n hn => hrelation (hnames n hn) (.inl ⟨r, hr, hn⟩)⟩
  · have hfits := h.restrictions x hx
    refine ⟨⟨mem_names_syncedTypes.mp hfits.type, mem_names_syncedTypes.mp hfits.userType⟩,
      fun n hn => ?_, fun c hc => ?_⟩
    · exact hrelation (hfits.relations n hn) (.inr (.inl ⟨x, hx, hn⟩))
    · exact hcondition (hfits.condition c hc) hx hc
  · have hfits := h.grantRules g hg
    refine ⟨mem_names_syncedTypes.mp hfits.type, fun n hn => ?_⟩
    exact hrelation (hfits.relations n hn) (.inr (.inr (.inl ⟨g, hg, hn⟩)))
  · have hfits := h.constraints c hc
    exact ⟨mem_names_syncedTypes.mp hfits.type, hrelation hfits.relation (.inr (.inr (.inr (.inl ⟨c, hc, rfl⟩))))⟩
  · obtain ⟨⟨htype, hname, -⟩, -⟩ := h.gates g hg
    exact ⟨mem_names_syncedTypes.mp htype, hname⟩

theorem Definition.Passes.wellFormed {hd : d.Canonical} (h : d.Passes db now hd s) : d.WellFormed db := by
  refine ⟨h.closed, h.groupOp, fun r hr => (h.rules r hr).negated, fun r hr => (h.rules r hr).objectWildcard, ?_,
    fun x hx => (h.restrictions x hx).wildcard, fun g hg => (h.grantRules g hg).other,
    fun c hc => (h.constraints c hc).bounded, h.relations, fun g hg => (h.gates g hg).1.2.2⟩
  intro c hc hcap
  have hnone := (h.constraints c hc).declared hcap
  constructor
  · intro r hr htype hrelation
    by_contra hwild
    have hwild' : r.allowObjectWildcard = true := by simpa using hwild
    exact hnone (.inr ⟨r, hr, htype, hrelation, (h.rules r hr).objectWildcard hwild', hwild'⟩)
  · intro x hx htype hrelation
    by_contra hwild
    exact hnone (.inl ⟨x, hx, htype, hrelation, by simpa using hwild⟩)

/-- The rules of the store that the definition keeps, on the types of the definition. -/
theorem Definition.Passes.ready {hd : d.Canonical} (h : d.Passes db now hd s) : d.BaseReady s.rules := by
  have hclosed : ∀ r ∈ d.rules, r.objectType ∈ d.typeNames := fun r hr => (h.closed.rule r hr).1
  exact (baseReady_congr (kept_cleared hclosed)).mp (baseReady_iff.mpr ⟨h.keptBased, h.based⟩)

theorem Definition.Passes.admits {hd : d.Canonical} (h : d.Passes db now hd s) : s.Admits now d := by
  refine ⟨h.types, fun n hn hstale => ?_, h.ready, fun c hc => (h.constraints c hc).stored⟩
  obtain ⟨htuples, href⟩ := h.staleRelations n (mem_names_upsertAll_relations.mpr (.inr hn)) hstale
  refine ⟨htuples, fun g hg hname => ?_, fun e he hname => ?_, fun hname => ?_⟩
  · exact href (.inr (.inr (.inr (.inr (.inl ⟨g, hg, hname⟩)))))
  · exact href (.inr (.inr (.inr (.inr (.inr (.inl ⟨e, he, hname⟩))))))
  · exact href (.inr (.inr (.inr (.inr (.inr (.inr hname))))))

theorem Definition.Passes.accepted {hd : d.Canonical} (h : d.Passes db now hd s) : d.Accepted db now s :=
  ⟨h.wellFormed, fun c hc => (h.constraints c hc).direct, h.conditions, fun g hg => (h.gates g hg).2, h.admits⟩

omit [OrderBot Text] in
/-- A constraint that is still there while the rules and the facets are written caps a pair only where the
definition does. -/
theorem capped_of_kept {rules : Table (@Rule.key Text)} {restrictions : Table (@Restriction.key Text)}
    {conditions : Table (@ConditionRow.name Text J)} {grantRules : Table (@GrantRule.key Text)} {T r : Text}
    (h : (s.between (d.syncedTypes s) (s.relations.upsertAll d.relations) rules restrictions conditions grantRules
      (d.keptConstraints s)).Capped T r) :
    ∃ c ∈ d.constraints, c.objectType = T ∧ c.relation = r ∧ c.maxDirect.isSome := by
  obtain ⟨c, hc, rfl, rfl, hcap⟩ := h
  obtain ⟨x, hx, htype, hrelation, hkeeps⟩ := not_not.mp (Table.mem_delete.mp hc).2
  refine ⟨x, hx, htype, hrelation, hkeeps.resolve_left fun hnone => ?_⟩
  simp [hnone] at hcap

/-- A relation of the definition is none of the stale ones. -/
theorem not_references_stale {n : Text} (hd : d.Canonical) (hwf : d.WellFormed db) (hfree : s.FreesRelation n)
    (hstale : n ∉ d.relationNames) : ¬ (s.beforeRemoval db hd).ReferencesRelation n := by
  rintro (⟨r, hr, hn⟩ | ⟨x, hx, hn⟩ | ⟨g, hg, hn⟩ | ⟨c, hc, rfl⟩ | ⟨g, hg, hn⟩ | ⟨e, he, hn⟩ | hn)
  · exact hstale ((hwf.closed.rule r hr).2 n hn)
  · exact hstale ((hwf.closed.restriction x hx).2.1 n hn)
  · exact hstale ((hwf.closed.grantRule g hg).2 n hn)
  · exact hstale (hwf.closed.constraint c hc).2
  · exact hfree.2.1 g hg hn
  · exact hfree.2.2.1 e he hn
  · exact hfree.2.2.2 hn

theorem Definition.Accepted.passes (hd : d.Canonical) (h : d.Accepted db now s) : d.Passes db now hd s := by
  have hclosed := h.wellFormed.closed
  have htypeName : ∀ {n}, n ∈ d.typeNames → n ∈ (d.syncedTypes s).rows.map TypeRow.name := mem_names_syncedTypes.mpr
  have hrelName : ∀ {n}, n ∈ d.relationNames → n ∈ (s.relations.upsertAll d.relations).rows.map RelationRow.name :=
    fun hn => mem_names_upsertAll_relations.mpr (.inl hn)
  have hready : d.BaseReady (d.cleared s).rules :=
    (baseReady_congr (kept_cleared fun r hr => (hclosed.rule r hr).1)).mpr h.admits.ready
  obtain ⟨hkeptBased, hbased⟩ := baseReady_iff.mp hready
  refine
    { types := h.admits.types
      relations := h.wellFormed.relation
      names := fun r hr => ⟨htypeName (hclosed.rule r hr).1, fun n hn => hrelName ((hclosed.rule r hr).2 n hn)⟩
      keptBased := hkeptBased
      rules := ?_
      groupOp := h.wellFormed.groupOp
      based := hbased
      conditions := h.compiles
      restrictions := ?_
      grantRules := fun g hg => ⟨htypeName (hclosed.grantRule g hg).1,
        fun n hn => hrelName ((hclosed.grantRule g hg).2 n hn), h.wellFormed.requires g hg⟩
      constraints := ?_
      staleRelations := ?_
      staleConditions := ?_
      gates := fun g hg => ⟨⟨htypeName (hclosed.gate g hg).1, (hclosed.gate g hg).2, h.wellFormed.gateName g hg⟩,
        h.normalizes g hg⟩ }
  · -- a wildcard rule has no cap that the definition keeps
    intro r hr
    refine ⟨htypeName (hclosed.rule r hr).1, fun n hn => hrelName ((hclosed.rule r hr).2 n hn),
      h.wellFormed.negated r hr, h.wellFormed.objectWildcard r hr, fun hwild hcapped => ?_⟩
    obtain ⟨c, hc, htype, hrelation, hcap⟩ := capped_of_kept hcapped
    have hnone := (h.wellFormed.uncapped c hc hcap).1 r hr htype.symm hrelation.symm
    exact Bool.false_ne_true (hnone.symm.trans hwild)
  · intro x hx
    obtain ⟨⟨htype, huser⟩, hnames, hcond⟩ := hclosed.restriction x hx
    refine ⟨htypeName htype, htypeName huser, fun n hn => hrelName (hnames n hn), h.wellFormed.wildcard x hx,
      fun hwild hcapped => ?_, fun c hc => mem_names_upsertAll_conditions.mpr (.inl (hcond c hc))⟩
    obtain ⟨c, hc, htype, hrelation, hcap⟩ := capped_of_kept hcapped
    have hnone := (h.wellFormed.uncapped c hc hcap).2 x hx htype.symm hrelation.symm
    exact Bool.false_ne_true (hnone.symm.trans hwild)
  · -- a cap meets no wildcard of the definition
    intro c hc
    obtain ⟨htype, hrelation⟩ := hclosed.constraint c hc
    refine ⟨htypeName htype, hrelName hrelation, h.wellFormed.bounded c hc, h.assigned c hc, fun hcap => ?_,
      h.admits.stored c hc⟩
    rintro (⟨x, hx, hxt, hxr, hwild⟩ | ⟨m, hm, hmt, hmr, -, hwild⟩)
    · exact Bool.false_ne_true (((h.wellFormed.uncapped c hc hcap).2 x hx hxt hxr).symm.trans hwild)
    · exact Bool.false_ne_true (((h.wellFormed.uncapped c hc hcap).1 m hm hmt hmr).symm.trans hwild)
  · -- a relation that goes is named by nothing that stays
    intro n hn hstale
    have hthere : n ∈ s.relationNames := (mem_names_upsertAll_relations.mp hn).resolve_left hstale
    have hfree := h.admits.relations n hthere hstale
    exact ⟨hfree.1, not_references_stale hd h.wellFormed hfree hstale⟩
  · intro n _ hstale x hx hxn
    exact hstale ((hclosed.restriction x hx).2.2 n hxn)

/-- **When the steps succeed**: for a canonical definition, exactly when it is accepted. -/
theorem syncModel_eq_ok_iff (hd : d.Canonical) (hs : s.Consistent db) :
    syncModel db now d s = .ok s' ↔ d.Accepted db now s ∧ s' = s.synced db hd :=
  (syncModel_eq_ok_iff_passes hd hs).trans
    (and_congr_left fun _ => ⟨Definition.Passes.accepted, Definition.Accepted.passes hd⟩)

end Steps

/-! ## The check of the function on itself -/

theorem exported_eq_self {t : TypeRow Text} (h : t.labels.Pairwise (· ≤ ·)) : t.exported = t := by
  rw [TypeRow.exported, h.insertionSort_eq]

/-- The types that a checksum is taken of, when no name comes twice. -/
theorem sorted_checksum_types {types : List (TypeRow Text)} (h : (types.map TypeRow.name).Nodup) :
    ((types.map TypeRow.logical).insertionSort (·.name ≤ ·.name)).Pairwise fun a b => a.name < b.name := by
  have hsorted : ((types.map TypeRow.logical).insertionSort (·.name ≤ ·.name)).Pairwise
      fun a b => a.name ≤ b.name := List.pairwise_insertionSort (fun a b : TypeRow Text => a.name ≤ b.name) _
  have hnodup : (((types.map TypeRow.logical).insertionSort (·.name ≤ ·.name)).map TypeRow.name).Nodup := by
    refine (List.Perm.nodup_iff ((List.perm_insertionSort _ _).map _)).mpr ?_
    rwa [List.map_map]
  exact (hsorted.and (List.pairwise_map.mp hnodup)).imp fun h => lt_of_le_of_ne h.1 h.2

/-- Two lists of types have one checksum when they have the same types, apart from the layout. -/
theorem checksum_types_eq {types types' : List (TypeRow Text)} (h : (types.map TypeRow.name).Nodup)
    (h' : (types'.map TypeRow.name).Nodup)
    (hmem : ∀ t, t ∈ types.map TypeRow.logical ↔ t ∈ types'.map TypeRow.logical) :
    (types.map TypeRow.logical).insertionSort (·.name ≤ ·.name) =
      (types'.map TypeRow.logical).insertionSort (·.name ≤ ·.name) := by
  refine Table.eq_of_sorted (sorted_checksum_types h) (sorted_checksum_types h') fun t => ?_
  rw [List.mem_insertionSort, List.mem_insertionSort]
  exact hmem t

/-- The types after the steps are those of the definition, laid out as the store has them. -/
theorem mem_syncedTypes (hd : d.Canonical) {t : TypeRow Text} :
    t ∈ d.syncedTypes s ↔ ∃ t' ∈ d.types, t'.laidOut (d.cleared s) = t := by
  have hnames : (d.types.map (TypeRow.laidOut (d.cleared s))).Pairwise fun a b => a.name ≠ b.name :=
    List.pairwise_map.mpr ((List.pairwise_map.mp hd.types).imp fun h => h)
  rw [Definition.syncedTypes, Table.mem_upsertAll hnames, List.mem_map]
  refine or_iff_left ?_
  rintro ⟨ht, hne⟩
  -- a type of the store that is not stale is one of the definition
  obtain ⟨ht, hfresh⟩ := Table.mem_delete.mp ht
  have hname : t.name ∈ d.typeNames := by
    by_contra hstale
    exact hfresh (List.mem_filter.mpr ⟨mem_typeNames.mpr ⟨t, ht, rfl⟩, by simpa using hstale⟩)
  obtain ⟨t', ht', heq⟩ := List.mem_map.mp hname
  exact hne _ (List.mem_map_of_mem ht') heq

theorem logical_exported_laidOut {t : TypeRow Text} (h : t.labels.Pairwise (· ≤ ·)) (b : Store Text J) :
    (t.laidOut b).exported.logical = t.logical := by
  rw [exported_eq_self (show (t.laidOut b).labels.Pairwise (· ≤ ·) from h)]
  rfl

/-- The types after the steps are those of the definition, apart from the layout. -/
theorem mem_logical_synced (hd : d.Canonical) (t : TypeRow Text) :
    t ∈ ((d.syncedTypes s).rows.map TypeRow.exported).map TypeRow.logical ↔ t ∈ d.types.map TypeRow.logical := by
  simp only [List.mem_map, exists_exists_and_eq_and]
  constructor
  · rintro ⟨row, hrow, rfl⟩
    obtain ⟨t', ht', rfl⟩ := (mem_syncedTypes hd).mp hrow
    exact ⟨t', ht', (logical_exported_laidOut (hd.labels t' ht') _).symm⟩
  · rintro ⟨t', ht', rfl⟩
    exact ⟨_, (mem_syncedTypes hd).mpr ⟨t', ht', rfl⟩, logical_exported_laidOut (hd.labels t' ht') _⟩

omit [LinearOrder Text] in
theorem map_eq_self_iff {α : Type} {f : α → α} {l : List α} : l.map f = l ↔ ∀ x ∈ l, f x = x := by
  conv_lhs => rhs; rw [← List.map_id l]
  exact List.map_inj_left

section Check

variable [OrderBot Text]

/-- The check of the function on itself passes when conditions and gates are stored as they are written. -/
theorem checksum_synced_iff (hd : d.Canonical) :
    modelChecksum (exportModel (s.synced db hd)) = modelChecksum d ↔
      (∀ c ∈ d.conditions, c.normalized db = c) ∧ ∀ g ∈ d.gates, g.normal db d.payloadSchema? = g := by
  have hnames : ((((d.syncedTypes s).rows.map TypeRow.exported)).map TypeRow.name).Nodup := by
    rw [List.map_map]
    exact (d.syncedTypes s).nodup_keys
  have htypes := checksum_types_eq hnames hd.types (mem_logical_synced (s := s) hd)
  rw [← map_eq_self_iff, ← map_eq_self_iff]
  constructor
  · intro h
    exact ⟨congrArg Definition.conditions h, congrArg Definition.gates h⟩
  · rintro ⟨hconditions, hgates⟩
    have hself : (s.synced db hd).gates.rows = d.gates := hgates
    have hself' : (s.synced db hd).conditions.rows = d.conditions := hconditions
    unfold modelChecksum exportModel
    rw [hself, hself']
    exact congrArg (fun types => { d with types }) htypes

/-- **A run of `apply_model` that passes its own check**: for a canonical definition there is one exactly when
the definition is sound and complete and the store admits it. -/
theorem syncModel_checked_iff (hd : d.Canonical) (hs : s.Consistent db) :
    (∃ s', syncModel db now d s = .ok s' ∧ modelChecksum (exportModel s') = modelChecksum d) ↔
      d.Sound db ∧ d.Complete db ∧ s.Admits now d := by
  simp only [syncModel_eq_ok_iff hd hs]
  constructor
  · rintro ⟨_, ⟨h, rfl⟩, hcheck⟩
    obtain ⟨hconditions, hgates⟩ := (checksum_synced_iff hd).mp hcheck
    refine ⟨⟨h.wellFormed, fun r hr hneg => ?_, fun c hc => ⟨hconditions c hc, ?_⟩⟩, ⟨h.assigned, fun g hg => ?_⟩,
      h.admits⟩
    · -- a base rule that the store keeps is one of the definition
      rcases h.admits.ready r hr hneg with ⟨b, hb, hgroup, hbneg⟩ | ⟨-, b, hb, hgroup, hbneg, -⟩
      · obtain ⟨-, w, hw, hkey, -⟩ := d.mem_kept.mp hb
        obtain ⟨hwgroup, -, hwneg⟩ := Rule.key_eq_iff.mp hkey
        exact ⟨w, hw, hwgroup.trans hgroup, hwneg.trans hbneg⟩
      · exact ⟨b, hb, hgroup, hbneg⟩
    · have hcompiles := h.compiles c hc
      rwa [hconditions c hc] at hcompiles
    · obtain ⟨x, hx⟩ := Option.isSome_iff_exists.mp (h.normalizes g hg)
      have hnormal := hgates g hg
      rw [GateRow.normal, hx, Option.getD_some] at hnormal
      rw [hx, hnormal]
  · rintro ⟨hsound, hcomplete, hadmits⟩
    refine ⟨_, ⟨⟨hsound.toWellFormed, hcomplete.direct, fun c hc => ?_, fun g hg => ?_, hadmits⟩, rfl⟩,
      (checksum_synced_iff hd).mpr ⟨fun c hc => (hsound.condition c hc).1, fun g hg => ?_⟩⟩
    · obtain ⟨hnormal, hcompiles⟩ := hsound.condition c hc
      rwa [hnormal]
    · rw [hcomplete.gates g hg]
      rfl
    · rw [GateRow.normal, hcomplete.gates g hg, Option.getD_some]

end Check

end Registry

end PgAuthz
