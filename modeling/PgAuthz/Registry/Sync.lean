import PgAuthz.Registry.Soundness

/-!
# The steps of `apply_model`

Each step of `apply_model` brings one table in line with the definition.  For each of them this module says
under which condition it does not raise, and what the table holds afterwards: the rows of the definition,
and until the last steps also the stale relations and conditions.

A step is a loop of calls of a model function.  The store after a prefix of the loop is the store before it
with the rows of the prefix written, and the conditions of the calls say nothing of the rows written before,
so that a loop passes when each of its calls does on the store as it was.  The rules are the exception: there
a call looks at the group of its rule, and so at the rules added before.

## Main results

* `removeStaleTypes_eq_ok_iff`, …, `addGates_eq_ok_iff`: one equivalence for each step
* `syncRules_eq_ok_iff`: the rules, deleted and added
-/

namespace PgAuthz

namespace Registry

open Keyed

variable {Text J : Type} [LinearOrder Text] {db : Database Text J} {d : Definition Text J} {s s' : Store Text J}

/-! ## Types -/

theorem withoutTypes_nil (s : Store Text J) : s.withoutTypes [] = s := by
  simp only [Store.withoutTypes, List.not_mem_nil, or_self]
  rw [Table.delete_eq_self, Table.delete_eq_self, Table.delete_eq_self, Table.delete_eq_self, Table.delete_eq_self]
  all_goals simp

theorem withoutTypes_concat (s : Store Text J) (pre : List Text) (name : Text) :
    (s.withoutTypes pre).withoutTypes [name] = s.withoutTypes (pre ++ [name]) := by
  unfold Store.withoutTypes
  congr 1
  all_goals exact Table.delete_delete fun x => by simp [or_assoc, or_left_comm]

theorem typeNames_nodup (s : Store Text J) : s.typeNames.Nodup := s.types.nodup_keys

theorem removeStaleTypes_eq_ok_iff :
    removeStaleTypes d s = .ok s' ↔
      (∀ n ∈ s.typeNames, n ∉ d.typeNames → s.Frees n) ∧
        s' = s.withoutTypes (s.typeNames.filter (· ∉ d.typeNames)) := by
  set stale := s.typeNames.filter (· ∉ d.typeNames) with hstale
  have hnodup : stale.Nodup := (typeNames_nodup s).filter _
  have step : ∀ pre a post, stale = pre ++ a :: post → ∀ s', modelRemoveType (s.withoutTypes pre) a false = .ok s' ↔
      s.Frees a ∧ s' = s.withoutTypes (pre ++ [a]) := by
    intro pre a post hsplit s'
    rw [modelRemoveType_false_eq_ok_iff, withoutTypes_concat]
    -- nothing outside the model has changed, and the type has not been removed before
    refine and_congr_left fun _ => and_iff_right ?_
    have hmem : a ∈ stale := by rw [hsplit]; simp
    obtain ⟨t, ht, rfl⟩ := mem_typeNames.mp (List.mem_of_mem_filter hmem)
    refine mem_typeNames.mpr ⟨t, Table.mem_delete.mpr ⟨ht, fun hpre => ?_⟩, rfl⟩
    rw [hsplit] at hnodup
    exact (List.nodup_append.mp hnodup).2.2 _ hpre _ List.mem_cons_self rfl
  have hloop := foldlM_eq_ok_iff_forall (fun s name => modelRemoveType s name false)
    (fun pre => s.withoutTypes pre) s.Frees stale step s'
  rw [withoutTypes_nil] at hloop
  rw [removeStaleTypes, ← hstale, hloop]
  refine and_congr_left fun _ => ?_
  simp [hstale, List.mem_filter]

/-- A type of the definition with the partition layout that the store has for it, if it has the type. -/
def TypeRow.laidOut (s : Store Text J) (t : TypeRow Text) : TypeRow Text :=
  { t with
    hashModulus := ((s.types.rows.find? (·.name = t.name)).map TypeRow.hashModulus).getD t.hashModulus }

theorem syncType_eq_ok_iff {t : TypeRow Text} :
    syncType s t = .ok s' ↔ s' = { s with types := s.types.upsert (t.laidOut s) } := by
  unfold syncType
  cases hfind : s.types.rows.find? (·.name = t.name) with
  | none =>
    have hnew : t.name ∉ s.typeNames := by simpa [Store.typeNames] using hfind
    rw [if_neg hnew, modelRegisterType_eq_ok_iff, and_iff_right hnew]
    simp [TypeRow.laidOut, hfind]
  | some row =>
    obtain ⟨hrow, hname⟩ := Table.find?_eq_some_iff.mp hfind
    rw [if_pos (mem_typeNames.mpr ⟨row, hrow, hname⟩), updateType_eq_ok_iff]
    simp only [TypeRow.laidOut, hfind, Option.map_some, Option.getD_some]
    constructor
    · rintro ⟨row', hrow', hname', rfl⟩
      rw [Table.eq_of_key hrow' hrow (hname'.trans hname.symm)]
    · rintro rfl
      exact ⟨row, hrow, hname, rfl⟩

theorem syncTypes_eq_ok_iff (hd : d.typeNames.Nodup) :
    syncTypes d s = .ok s' ↔
      s' = { s with types := s.types.upsertAll (d.types.map (TypeRow.laidOut s)) } := by
  have hne : d.types.Pairwise fun a b => a.name ≠ b.name := List.pairwise_map.mp hd
  have step : ∀ pre a post, d.types = pre ++ a :: post → ∀ s',
      syncType { s with types := s.types.upsertAll (pre.map (TypeRow.laidOut s)) } a = .ok s' ↔
        True ∧ s' = { s with types := s.types.upsertAll ((pre ++ [a]).map (TypeRow.laidOut s)) } := by
    intro pre a post hsplit s'
    -- the type has not been written before, so the layout is still that of the store
    have hlayout : a.laidOut { s with types := s.types.upsertAll (pre.map (TypeRow.laidOut s)) } = a.laidOut s := by
      have hpairwise : (d.types.map (TypeRow.laidOut s)).Pairwise fun a b => a.name ≠ b.name :=
        List.pairwise_map.mpr hne
      have hsplit' : d.types.map (TypeRow.laidOut s) =
          pre.map (TypeRow.laidOut s) ++ a.laidOut s :: post.map (TypeRow.laidOut s) := by
        rw [hsplit, List.map_append, List.map_cons]
      unfold TypeRow.laidOut
      congr 3
      exact Table.find?_congr fun r hr => Table.mem_upsertAll_init hpairwise hsplit' hr
    rw [syncType_eq_ok_iff, hlayout, true_and, List.map_append, List.map_singleton, Table.upsertAll_concat]
  refine (foldlM_eq_ok_iff_forall syncType
    (fun pre => { s with types := s.types.upsertAll (pre.map (TypeRow.laidOut s)) }) (fun _ => True) d.types step
    s').trans ?_
  exact and_iff_right fun _ _ => trivial

/-! ## Relations -/

theorem syncRelation_eq_ok_iff {r : RelationRow Text J}
    (hmetadata : ∀ x ∈ s.relations, x.name = r.name → db.metadataCheck x.metadata = true) :
    syncRelation db s r = .ok s' ↔ r.Valid db ∧ s' = { s with relations := s.relations.upsert r } := by
  obtain ⟨r₁, hname, hcheck, hregister⟩ := modelRegisterRelation_none_eq_ok hmetadata r.description
  have hwritten : ∀ (t : Table (@RelationRow.name Text J)) (a x : RelationRow Text J),
      x ∈ t.upsert a → x.name = a.name → x = a :=
    fun t a x hx h => Table.eq_of_key hx (Table.mem_upsert_self t a) h
  -- the row is written three times under one name, and the last write is the row of the definition
  have hlast : ∀ x : RelationRow Text J, x.name = r.name → { s with relations := ((s.relations.upsert x).upsert
      { x with name := r.name, description := r.description, metadata := r.metadata }).upsert r } =
      { s with relations := s.relations.upsert r } := by
    intro x hx
    have hsame : ({ x with name := r.name, description := r.description, metadata := r.metadata } :
      RelationRow Text J).name = r.name := rfl
    rw [Table.upsert_upsert hsame, Table.upsert_upsert hx]
  unfold syncRelation
  simp only [bind_eq_ok_iff, hregister, Except.ok.injEq, exists_eq_left', updateRelation_eq_ok_iff,
    modelSetPayloadSchema_eq_ok_iff]
  constructor
  · rintro ⟨_, ⟨x, hx, hxname, hmeta, rfl⟩, hschema, y, hy, hyname, _, rfl⟩
    obtain rfl := hwritten _ _ x hx (hxname.trans hname.symm)
    obtain rfl := hwritten _ _ y hy hyname
    exact ⟨⟨hmeta, hschema⟩, hlast x hname⟩
  · rintro ⟨⟨hmeta, hschema⟩, rfl⟩
    exact ⟨_, ⟨r₁, Table.mem_upsert_self _ _, hname, hmeta, rfl⟩, hschema, _, Table.mem_upsert_self _ _, rfl, hmeta,
      (hlast r₁ hname).symm⟩

theorem syncRelations_eq_ok_iff (hd : d.relations.Pairwise fun a b => a.name < b.name)
    (hmetadata : ∀ x ∈ s.relations, db.metadataCheck x.metadata = true) :
    syncRelations db d s = .ok s' ↔
      (∀ r ∈ d.relations, r.Valid db) ∧ s' = { s with relations := s.relations.upsertAll d.relations } := by
  have step : ∀ pre a post, d.relations = pre ++ a :: post → ∀ s',
      syncRelation db { s with relations := s.relations.upsertAll pre } a = .ok s' ↔
        a.Valid db ∧ s' = { s with relations := s.relations.upsertAll (pre ++ [a]) } := by
    intro pre a post hsplit s'
    rw [syncRelation_eq_ok_iff, Table.upsertAll_concat]
    intro x hx hname
    exact hmetadata x ((Table.mem_upsertAll_init (hd.imp fun h => h.ne) hsplit hname).mp hx)
  exact foldlM_eq_ok_iff_forall (syncRelation db) (fun pre => { s with relations := s.relations.upsertAll pre })
    (RelationRow.Valid db) d.relations step s'

/-! ## Rules

The stale rules go in one statement, which objects when a group is left with negated rules only.  The rules of
the definition are then added in its order, and each addition looks at its group: what the store kept of it,
and what has been added before. -/

theorem hasBase_iff {rules : Table (@Rule.key Text)} {group : Text × Text × ℤ} :
    HasBase rules group ↔ ∃ b ∈ rules, b.group = group ∧ b.negated = false := Iff.rfl

theorem deleteStaleRules_eq_ok_iff (hbased : ∀ r ∈ s.rules, r.negated = true → HasBase s.rules r.group) :
    deleteStaleRules d s = .ok s' ↔
      ((∀ r ∈ d.rules, r.objectType ∈ s.typeNames ∧ ∀ n ∈ r.relations, n ∈ s.relationNames) ∧
        ∀ m ∈ d.kept s.rules, m.negated = true → HasBase (d.kept s.rules) m.group) ∧
      s' = { s with rules := d.kept s.rules } := by
  have hgroups : (∀ r ∈ s.rules, ¬ d.KeepsRule r → GroupHasBase (d.kept s.rules) r.group) ↔
      ∀ m ∈ d.kept s.rules, m.negated = true → HasBase (d.kept s.rules) m.group := by
    constructor
    · intro h m hm hneg
      obtain ⟨b, hb, hgroup, hbneg⟩ := hasBase_iff.mp (hbased m (d.mem_kept.mp hm).1 hneg)
      -- either the base rule has stayed, or its going has had the group looked at
      by_cases hkeeps : d.KeepsRule b
      · exact ⟨b, d.mem_kept.mpr ⟨hb, hkeeps⟩, hgroup, hbneg⟩
      · exact hgroup ▸ groupHasBase_iff.mp (h b hb hkeeps) m hm hgroup.symm hneg
    · intro h r _ _
      exact groupHasBase_iff.mpr fun m hm hgroup hneg => hgroup ▸ h m hm hneg
  simp only [deleteStaleRules, bind_eq_ok_iff, forM_eq_ok_iff, requireType_eq_ok_iff, requireRelations_eq_ok_iff,
    exists_const, deleteRules_eq_ok_iff, pure_eq_ok]
  constructor
  · rintro ⟨hnames, _, ⟨hdelete, rfl⟩, rfl⟩
    exact ⟨⟨hnames, hgroups.mp hdelete⟩, rfl⟩
  · rintro ⟨⟨hnames, hkept⟩, rfl⟩
    exact ⟨hnames, _, ⟨hgroups.mpr hkept, rfl⟩, rfl⟩

theorem Rule.Fits.of_rules {r : Rule Text} {rules : Table (@Rule.key Text)} :
    r.Fits { s with rules } ↔ r.Fits s :=
  ⟨fun h => { h with }, fun h => { h with }⟩

/-- The turns of `model_add_rule` over the rules of the definition, when the store holds only rules that the
definition keeps and every group of them with a negated rule has a base rule. -/
theorem addRules_turns_iff {rules : Table (@Rule.key Text)} (hd : d.rules.Pairwise fun a b => a.key < b.key)
    (hkept : ∀ m ∈ rules, d.KeepsRule m) (hbased : ∀ m ∈ rules, m.negated = true → HasBase rules m.group) :
    (∀ pre a post, d.rules = pre ++ a :: post →
      (∀ m ∈ rules.upsertAll pre, m.group = a.group → m.groupOp = a.groupOp) ∧
        GroupHasBase ((rules.upsertAll pre).upsert a) a.group) ↔
      (∀ r ∈ d.rules, ∀ r' ∈ d.rules, r.group = r'.group → r.groupOp = r'.groupOp) ∧
        ∀ r ∈ d.rules, r.negated = true →
          HasBase rules r.group ∨ ∃ b ∈ d.rules, b.group = r.group ∧ b.negated = false ∧ b.key < r.key := by
  have hmem : ∀ pre a post, d.rules = pre ++ a :: post → ∀ m, m ∈ rules.upsertAll pre ↔
      m ∈ pre ∨ m ∈ rules ∧ ∀ y ∈ pre, y.key ≠ m.key := fun pre a post hsplit m =>
    Table.mem_upsertAll (Table.pairwise_init (hd.imp fun h => h.ne) hsplit)
  constructor
  · intro hturns
    constructor
    · -- of two rules of one group, the later one finds the earlier one there
      have hbefore : ∀ r ∈ d.rules, ∀ r' ∈ d.rules, r.group = r'.group → r.key < r'.key → r.groupOp = r'.groupOp := by
        intro r hr r' hr' hgroup hlt
        obtain ⟨pre, post, hsplit⟩ := List.append_of_mem hr'
        have hpre : r ∈ pre := (Table.mem_prefix_iff hd hsplit).mpr ⟨hr, hlt⟩
        exact (hturns pre r' post hsplit).1 r ((hmem pre r' post hsplit r).mpr (.inl hpre)) hgroup
      intro r hr r' hr' hgroup
      rcases lt_trichotomy r.key r'.key with hlt | heq | hgt
      · exact hbefore r hr r' hr' hgroup hlt
      · rw [Table.eq_of_key (t := ⟨d.rules, hd⟩) hr hr' heq]
      · exact (hbefore r' hr' r hr hgroup.symm hgt).symm
    · intro r hr hneg
      obtain ⟨pre, post, hsplit⟩ := List.append_of_mem hr
      have hbase := groupHasBase_iff.mp (hturns pre r post hsplit).2 r (Table.mem_upsert_self _ _) rfl hneg
      obtain ⟨b, hb, hgroup, hbneg⟩ := hasBase_iff.mp hbase
      rcases Table.mem_upsert.mp hb with rfl | ⟨hb, _⟩
      · simp [hneg] at hbneg
      · rcases (hmem pre r post hsplit b).mp hb with hpre | ⟨hb, _⟩
        · obtain ⟨hb, hlt⟩ := (Table.mem_prefix_iff hd hsplit).mp hpre
          exact .inr ⟨b, hb, hgroup, hbneg, hlt⟩
        · exact .inl ⟨b, hb, hgroup, hbneg⟩
  · rintro ⟨hop, hready⟩ pre a post hsplit
    have ha : a ∈ d.rules := by rw [hsplit]; simp
    -- a rule of the store or of the prefix leaves a rule under its key, and so one as it is for its group
    have hstays : ∀ b, b ∈ rules ∨ b ∈ pre → b.group = a.group → b.negated = false →
        HasBase ((rules.upsertAll pre).upsert a) a.group := by
      intro b hb hgroup hneg
      obtain ⟨x, hx, hkey⟩ : ∃ x ∈ (rules.upsertAll pre).upsert a, x.key = b.key := by
        refine Table.exists_key_upsert.mpr (.inr (Table.exists_key_upsertAll.mpr ?_))
        rcases hb with hb | hb
        · exact .inr ⟨b, hb, rfl⟩
        · exact .inl ⟨b, hb, rfl⟩
      obtain ⟨hxgroup, _, hxneg⟩ := Rule.key_eq_iff.mp hkey
      exact ⟨x, hx, hxgroup.trans hgroup, hxneg.trans hneg⟩
    have hbase : ∀ r, r ∈ pre ∨ r = a → r.group = a.group → r.negated = true →
        HasBase ((rules.upsertAll pre).upsert a) a.group := by
      intro r hr hgroup hneg
      have hle : r ∈ d.rules ∧ r.key ≤ a.key := by
        rcases hr with hr | rfl
        · exact ((Table.mem_prefix_iff hd hsplit).mp hr).imp_right le_of_lt
        · exact ⟨ha, le_rfl⟩
      rcases hready r hle.1 hneg with ⟨b, hb, hbgroup, hbneg⟩ | ⟨b, hb, hbgroup, hbneg, hlt⟩
      · exact hstays b (.inl hb) (hbgroup.trans hgroup) hbneg
      · refine hstays b (.inr ?_) (hbgroup.trans hgroup) hbneg
        exact (Table.mem_prefix_iff hd hsplit).mpr ⟨hb, hlt.trans_le hle.2⟩
    constructor
    · intro m hm hgroup
      rcases (hmem pre a post hsplit m).mp hm with hpre | ⟨hm, _⟩
      · exact hop m ((Table.mem_prefix_iff hd hsplit).mp hpre).1 a ha hgroup
      · obtain ⟨w, hw, hkey, hwop⟩ := hkept m hm
        exact hwop ▸ hop w hw a ha ((Rule.key_eq_iff.mp hkey).1.trans hgroup)
    · refine groupHasBase_iff.mpr fun m hm hgroup hneg => ?_
      rcases Table.mem_upsert.mp hm with rfl | ⟨hm, _⟩
      · exact hbase m (.inr rfl) rfl hneg
      · rcases (hmem pre a post hsplit m).mp hm with hpre | ⟨hm, _⟩
        · exact hbase m (.inl hpre) hgroup hneg
        · obtain ⟨b, hb, hbgroup, hbneg⟩ := hasBase_iff.mp (hbased m hm hneg)
          exact hstays b (.inl hb) (hbgroup.trans hgroup) hbneg

theorem addRules_eq_ok_iff (hd : d.rules.Pairwise fun a b => a.key < b.key)
    (hkept : ∀ m ∈ s.rules, d.KeepsRule m) (hbased : ∀ m ∈ s.rules, m.negated = true → HasBase s.rules m.group) :
    addRules d s = .ok s' ↔
      ((∀ r ∈ d.rules, r.Fits s) ∧
        (∀ r ∈ d.rules, ∀ r' ∈ d.rules, r.group = r'.group → r.groupOp = r'.groupOp) ∧
          ∀ r ∈ d.rules, r.negated = true →
            HasBase s.rules r.group ∨ ∃ b ∈ d.rules, b.group = r.group ∧ b.negated = false ∧ b.key < r.key) ∧
      s' = { s with rules := ⟨d.rules, hd⟩ } := by
  have step : ∀ pre a post, d.rules = pre ++ a :: post → ∀ s',
      modelAddRule { s with rules := s.rules.upsertAll pre } a = .ok s' ↔
        (a.Fits s ∧ (∀ m ∈ s.rules.upsertAll pre, m.group = a.group → m.groupOp = a.groupOp) ∧
          GroupHasBase ((s.rules.upsertAll pre).upsert a) a.group) ∧
        s' = { s with rules := s.rules.upsertAll (pre ++ [a]) } := by
    intro pre a post _ s'
    rw [modelAddRule_eq_ok_iff, Rule.Fits.of_rules, Table.upsertAll_concat]
  have hrows : (s.rules.upsertAll d.rules) = ⟨d.rules, hd⟩ := by
    have := Table.rows_upsertAll (t := s.rules) hd fun m hm => (hkept m hm).imp fun w hw => ⟨hw.1, hw.2.1⟩
    exact Table.ext fun r => by rw [Table.mem_def, this]; rfl
  refine (foldlM_eq_ok_iff modelAddRule (fun pre => { s with rules := s.rules.upsertAll pre })
    (fun pre a => a.Fits s ∧ (∀ m ∈ s.rules.upsertAll pre, m.group = a.group → m.groupOp = a.groupOp) ∧
      GroupHasBase ((s.rules.upsertAll pre).upsert a) a.group) d.rules step s').trans ?_
  rw [hrows, ← addRules_turns_iff hd hkept hbased]
  refine and_congr_left fun _ => ?_
  constructor
  · intro h
    refine ⟨fun r hr => ?_, fun pre a post hsplit => (h pre a post hsplit).2⟩
    obtain ⟨pre, post, hsplit⟩ := List.append_of_mem hr
    exact (h pre r post hsplit).1
  · rintro ⟨hfits, hturns⟩ pre a post hsplit
    exact ⟨hfits a (by rw [hsplit]; simp), hturns pre a post hsplit⟩

theorem baseReady_iff {rules : Table (@Rule.key Text)} :
    d.BaseReady rules ↔
      (∀ m ∈ d.kept rules, m.negated = true → HasBase (d.kept rules) m.group) ∧
        ∀ r ∈ d.rules, r.negated = true →
          HasBase (d.kept rules) r.group ∨ ∃ b ∈ d.rules, b.group = r.group ∧ b.negated = false ∧ b.key < r.key := by
  constructor
  · refine fun h => ⟨fun m hm hneg => ?_, fun r hr hneg => (h r hr hneg).imp_right And.right⟩
    -- the rule of the definition under the same key is negated, too
    obtain ⟨w, hw, hkey, _⟩ := (d.mem_kept.mp hm).2
    obtain ⟨hgroup, _, hwneg⟩ := Rule.key_eq_iff.mp hkey
    rcases h w hw (hwneg.trans hneg) with hbase | ⟨hnone, _⟩
    · exact hgroup ▸ hbase
    · exact absurd hneg (by simp [hnone m hm hgroup.symm])
  · rintro ⟨hkept, hready⟩ r hr hneg
    by_cases hbase : HasBase (d.kept rules) r.group
    · exact .inl hbase
    · refine .inr ⟨fun m hm hgroup => ?_, (hready r hr hneg).resolve_left hbase⟩
      by_contra hmneg
      exact hbase (hgroup ▸ hkept m hm (by simpa using hmneg))

/-! ## Conditions and facets -/

theorem syncCondition_eq_ok_iff [OrderBot Text] {c : ConditionRow Text J} :
    syncCondition db s c = .ok s' ↔
      db.Compiles (c.normalized db) ∧ s' = { s with conditions := s.conditions.upsert (c.normalized db) } := by
  have hrow : { c with description := some (c.description.getD ⊥) }.stored db s = c.normalized db := by
    cases hdesc : c.description with
    | none => simp [ConditionRow.stored, ConditionRow.normalized, hdesc]
    | some e => simp [ConditionRow.stored, ConditionRow.normalized, hdesc]
  rw [syncCondition, createCondition_eq_ok_iff, hrow]

theorem syncConditions_eq_ok_iff [OrderBot Text] :
    syncConditions db d s = .ok s' ↔
      (∀ c ∈ d.conditions, db.Compiles (c.normalized db)) ∧
        s' = { s with conditions := s.conditions.upsertAll (d.conditions.map (ConditionRow.normalized db)) } :=
  foldlM_upsert_eq_ok_iff (syncCondition db) (fun t => { s with conditions := t }) (ConditionRow.normalized db)
    (fun c => db.Compiles (c.normalized db)) d.conditions (fun _ _ _ _ => syncCondition_eq_ok_iff) s.conditions s'

theorem Restriction.Fits.of_restrictions {x : Restriction Text} {restrictions : Table (@Restriction.key Text)} :
    x.Fits { s with restrictions } ↔ x.Fits s :=
  ⟨fun h => { h with }, fun h => { h with }⟩

theorem syncRestrictions_eq_ok_iff (hd : d.restrictions.Pairwise fun a b => a.key < b.key) :
    (deleteStaleRestrictions d s >>= addRestrictions d) = .ok s' ↔
      (∀ x ∈ d.restrictions, x.Fits s) ∧ s' = { s with restrictions := ⟨d.restrictions, hd⟩ } := by
  have hadd : ∀ t : Table (@Restriction.key Text), addRestrictions d { s with restrictions := t } = .ok s' ↔
      (∀ x ∈ d.restrictions, x.Fits s) ∧ s' = { s with restrictions := t.upsertAll d.restrictions } := by
    intro t
    have hloop := foldlM_upsert_eq_ok_iff modelAddTypeRestriction (fun t => { s with restrictions := t }) id
      (Restriction.Fits s) d.restrictions (fun x _ t s' => by
        rw [modelAddTypeRestriction_eq_ok_iff, Restriction.Fits.of_restrictions, id]) t s'
    rwa [List.map_id] at hloop
  simp only [deleteStaleRestrictions, bind_eq_ok_iff, forM_eq_ok_iff, requireType_eq_ok_iff,
    requireRelations_eq_ok_iff, exists_const, pure_eq_ok]
  -- once every facet fits, each names a condition that is there, so that what has stayed is in the definition
  have hrows : (∀ x ∈ d.restrictions, x.Fits s) →
      (s.restrictions.delete fun x => ¬ KeepsRestriction d s x).upsertAll d.restrictions = ⟨d.restrictions, hd⟩ := by
    intro hfits
    refine Table.ext fun r => ?_
    rw [Table.mem_def, Table.rows_upsertAll hd fun x hx => ?_]
    · rfl
    · obtain ⟨w, hw, hkey⟩ := not_not.mp (Table.mem_delete.mp hx).2
      refine ⟨w, hw, ?_⟩
      have hcondition : w.condition.filter (· ∈ s.conditionNames) = w.condition := by
        have := (hfits w hw).condition
        cases hc : w.condition <;> simp_all
      rwa [hcondition] at hkey
  constructor
  · rintro ⟨_, ⟨_, rfl⟩, hs'⟩
    obtain ⟨hfits, rfl⟩ := (hadd _).mp hs'
    exact ⟨hfits, by rw [hrows hfits]⟩
  · rintro ⟨hfits, rfl⟩
    refine ⟨_, ⟨fun x hx => ⟨(hfits x hx).type, (hfits x hx).userType, (hfits x hx).relations⟩, rfl⟩, ?_⟩
    exact (hadd _).mpr ⟨hfits, by rw [hrows hfits]⟩

/-! ## Grant rules and constraints -/

theorem syncGrantRules_eq_ok_iff (hd : d.grantRules.Pairwise fun a b => a.key < b.key) :
    addGrantRules d (dropStaleGrantRules d s) = .ok s' ↔
      (∀ g ∈ d.grantRules, g.Fits s) ∧ s' = { s with grantRules := ⟨d.grantRules, hd⟩ } := by
  have hfits : ∀ (t : Table (@GrantRule.key Text)) (g : GrantRule Text), g.Fits { s with grantRules := t } ↔ g.Fits s :=
    fun t g => ⟨fun h => { h with }, fun h => { h with }⟩
  have hloop := foldlM_upsert_eq_ok_iff modelAddGrantRule (fun t => { s with grantRules := t }) id
    (GrantRule.Fits s) d.grantRules (fun g _ t s' => by rw [modelAddGrantRule_eq_ok_iff, hfits, id])
    (dropStaleGrantRules d s).grantRules s'
  have hrows : (dropStaleGrantRules d s).grantRules.upsertAll d.grantRules = ⟨d.grantRules, hd⟩ := by
    refine Table.ext fun r => ?_
    rw [Table.mem_def, Table.rows_upsertAll hd fun g hg => ?_]
    · rfl
    · obtain ⟨x, hx, htype, hrelation⟩ := not_not.mp (Table.mem_delete.mp hg).2
      exact ⟨x, hx, by rw [GrantRule.key, GrantRule.key, htype, hrelation]⟩
  rwa [List.map_id, hrows] at hloop

theorem setConstraints_eq_ok_iff {now : ℤ} (hd : d.constraints.Pairwise fun a b => a.key < b.key)
    (hkept : ∀ c ∈ s.constraints, ∃ x ∈ d.constraints, x.key = c.key) :
    setConstraints now d s = .ok s' ↔
      (∀ c ∈ d.constraints, c.Fits now s) ∧ s' = { s with constraints := ⟨d.constraints, hd⟩ } := by
  have hfits : ∀ (t : Table (@RelationConstraint.key Text)) (c : RelationConstraint Text),
      c.Fits now { s with constraints := t } ↔ c.Fits now s :=
    fun t c => ⟨fun h => { h with }, fun h => { h with }⟩
  have hloop := foldlM_upsert_eq_ok_iff (modelSetRelationConstraint now) (fun t => { s with constraints := t }) id
    (RelationConstraint.Fits now s) d.constraints
    (fun c _ t s' => by rw [modelSetRelationConstraint_eq_ok_iff, hfits, id]) s.constraints s'
  have hrows : s.constraints.upsertAll d.constraints = ⟨d.constraints, hd⟩ :=
    Table.ext fun r => by rw [Table.mem_def, Table.rows_upsertAll hd hkept]; rfl
  rwa [List.map_id, hrows] at hloop

/-! ## What is removed last -/

theorem removeStaleRelation_eq_ok_iff {name : Text} :
    removeStaleRelation s name = .ok s' ↔
      ((∀ t ∈ s.tuples, ¬ t.NamesRelation name) ∧ ¬ s.ReferencesRelation name) ∧
        s' = { s with relations := s.relations.delete fun r => r.name = name } := by
  simp only [removeStaleRelation, bind_eq_ok_iff, refuseIf_eq_ok, pure_eq_ok, exists_const, and_assoc,
    Nat.pos_iff_ne_zero, not_not, ne_eq, relationTuples_eq_zero_iff]

theorem removeStaleRelations_eq_ok_iff :
    removeStaleRelations d s = .ok s' ↔
      (∀ n ∈ s.relationNames, n ∉ d.relationNames →
        (∀ t ∈ s.tuples, ¬ t.NamesRelation n) ∧ ¬ s.ReferencesRelation n) ∧
      s' = { s with relations := s.relations.delete fun r => r.name ∉ d.relationNames } := by
  have hloop := foldlM_delete_eq_ok_iff removeStaleRelation (fun t => { s with relations := t })
    (fun name r => r.name = name)
    (fun name => (∀ t ∈ s.tuples, ¬ t.NamesRelation name) ∧ ¬ s.ReferencesRelation name)
    (s.relationNames.filter (· ∉ d.relationNames))
    (fun name _ t s' => by rw [removeStaleRelation_eq_ok_iff]; rfl) s.relations s'
  have htable : (s.relations.delete fun r => ∃ n ∈ s.relationNames.filter (· ∉ d.relationNames), r.name = n) =
      s.relations.delete fun r => r.name ∉ d.relationNames := by
    refine Table.ext fun r => ?_
    rw [Table.mem_delete, Table.mem_delete]
    refine and_congr_right fun hr => not_congr ?_
    have hname : r.name ∈ s.relationNames := mem_relationNames.mpr ⟨r, hr, rfl⟩
    simp [List.mem_filter, hname]
  rw [htable] at hloop
  refine hloop.trans (and_congr_left fun _ => ?_)
  simp [List.mem_filter]

theorem removeStaleConditions_eq_ok_iff :
    removeStaleConditions d s = .ok s' ↔
      (∀ n ∈ s.conditionNames, n ∉ d.conditionNames → ∀ x ∈ s.restrictions, x.condition ≠ some n) ∧
        s' = { s with conditions := s.conditions.delete fun c => c.name ∉ d.conditionNames } := by
  have hloop := foldlM_delete_eq_ok_iff deleteCondition (fun t => { s with conditions := t })
    (fun name c => c.name = name) (fun name => ∀ x ∈ s.restrictions, x.condition ≠ some name)
    (s.conditionNames.filter (· ∉ d.conditionNames)) (fun name _ t s' => deleteCondition_eq_ok_iff)
    s.conditions s'
  have htable : (s.conditions.delete fun c => ∃ n ∈ s.conditionNames.filter (· ∉ d.conditionNames), c.name = n) =
      s.conditions.delete fun c => c.name ∉ d.conditionNames := by
    refine Table.ext fun c => ?_
    rw [Table.mem_delete, Table.mem_delete]
    refine and_congr_right fun hc => not_congr ?_
    have hname : c.name ∈ s.conditionNames := mem_conditionNames.mpr ⟨c, hc, rfl⟩
    simp [List.mem_filter, hname]
  rw [htable] at hloop
  refine hloop.trans (and_congr_left fun _ => ?_)
  simp [List.mem_filter]

/-! ## Gates -/

/-- The gate as it is stored under a vocabulary that accepts it. -/
def GateRow.normal (db : Database Text J) (vocabulary : Text → Option (Option J)) (g : GateRow Text J) :
    GateRow Text J :=
  (g.normalized db vocabulary).getD g

omit [LinearOrder Text] in
theorem GateRow.key_of_normalized {vocabulary : Text → Option (Option J)} {g x : GateRow Text J}
    (h : g.normalized db vocabulary = some x) : x.key = g.key := by
  simp only [GateRow.normalized, Option.map_eq_some_iff] at h
  obtain ⟨spec, _, rfl⟩ := h
  rfl

omit [LinearOrder Text] in
theorem GateRow.key_normal (vocabulary : Text → Option (Option J)) (g : GateRow Text J) :
    (g.normal db vocabulary).key = g.key := by
  unfold GateRow.normal
  cases h : g.normalized db vocabulary with
  | none => rfl
  | some x => exact GateRow.key_of_normalized h

/-- What `add_gate` asks of a gate. -/
def GateRow.Fits (db : Database Text J) (s : Store Text J) (g : GateRow Text J) : Prop :=
  (g.objectType ∈ s.typeNames ∧ g.relation ∈ s.relationNames ∧ db.gateName g.name = true) ∧
    (g.normalized db s.payloadSchema?).isSome

theorem addGate_eq_ok_iff_fits {g : GateRow Text J} :
    addGate db s g = .ok s' ↔
      g.Fits db s ∧ s' = { s with gates := s.gates.upsert (g.normal db s.payloadSchema?) } := by
  rw [addGate_eq_ok_iff, GateRow.Fits, GateRow.normal]
  cases g.normalized db s.payloadSchema? <;> simp [and_assoc]

theorem dropStaleGates_eq_ok_iff (hs : ∀ g ∈ s.gates, g.objectType ∈ s.typeNames ∧ g.relation ∈ s.relationNames) :
    dropStaleGates d s = .ok s' ↔
      s' = { s with gates := s.gates.delete fun g => ¬ ∃ x ∈ d.gates, x.key = g.key } := by
  have hloop := foldlM_delete_eq_ok_iff (fun s (g : GateRow Text J) => dropGate s g.objectType g.relation g.name)
    (fun t => { s with gates := t })
    (fun g x => x.objectType = g.objectType ∧ x.relation = g.relation ∧ x.name = g.name)
    (fun g => g.objectType ∈ s.typeNames ∧ g.relation ∈ s.relationNames)
    (s.gates.rows.filter fun g => ¬ ∃ x ∈ d.gates, x.key = g.key) (fun g _ t s' => dropGate_eq_ok_iff) s.gates s'
  have htable : (s.gates.delete fun x => ∃ g ∈ s.gates.rows.filter
      (fun g : GateRow Text J => ¬ ∃ x ∈ d.gates, x.key = g.key),
      x.objectType = g.objectType ∧ x.relation = g.relation ∧ x.name = g.name) =
      s.gates.delete fun g => ¬ ∃ x ∈ d.gates, x.key = g.key := by
    refine Table.ext fun x => ?_
    rw [Table.mem_delete, Table.mem_delete]
    refine and_congr_right fun hx => not_congr ?_
    simp only [List.mem_filter, decide_eq_true_eq]
    constructor
    · rintro ⟨g, ⟨hg, hstale⟩, htype, hrelation, hname⟩
      rwa [show x.key = g.key by rw [GateRow.key, GateRow.key, htype, hrelation, hname]]
    · exact fun hstale => ⟨x, ⟨hx, hstale⟩, rfl, rfl, rfl⟩
  rw [htable] at hloop
  refine hloop.trans (and_iff_right fun g hg => hs g (List.mem_of_mem_filter hg))

theorem syncGates_eq_ok_iff (hd : d.gates.Pairwise fun a b => a.key < b.key)
    (hs : ∀ g ∈ s.gates, g.objectType ∈ s.typeNames ∧ g.relation ∈ s.relationNames) :
    (dropStaleGates d s >>= addGates db d) = .ok s' ↔
      (∀ g ∈ d.gates, g.Fits db s) ∧
        s' = { s with gates := ⟨d.gates.map (GateRow.normal db s.payloadSchema?),
          List.pairwise_map.mpr (hd.imp fun h => by simpa only [GateRow.key_normal] using h)⟩ } := by
  have hsorted : (d.gates.map (GateRow.normal db s.payloadSchema?)).Pairwise fun a b => a.key < b.key :=
    List.pairwise_map.mpr (hd.imp fun h => by simpa only [GateRow.key_normal] using h)
  have hloop := foldlM_upsert_eq_ok_iff (addGate db) (fun t => { s with gates := t })
    (GateRow.normal db s.payloadSchema?) (GateRow.Fits db s) d.gates
    (fun g _ t s' => addGate_eq_ok_iff_fits)
    (s.gates.delete fun g => ¬ ∃ x ∈ d.gates, x.key = g.key) s'
  have hrows : (s.gates.delete fun g => ¬ ∃ x ∈ d.gates, x.key = g.key).upsertAll
      (d.gates.map (GateRow.normal db s.payloadSchema?)) =
      ⟨d.gates.map (GateRow.normal db s.payloadSchema?), hsorted⟩ := by
    refine Table.ext fun r => ?_
    rw [Table.mem_def, Table.rows_upsertAll hsorted fun g hg => ?_]
    · rfl
    · obtain ⟨x, hx, hkey⟩ := not_not.mp (Table.mem_delete.mp hg).2
      exact ⟨_, List.mem_map_of_mem hx, (GateRow.key_normal _ x).trans hkey⟩
  rw [hrows] at hloop
  rw [bind_eq_ok_iff]
  simp only [dropStaleGates_eq_ok_iff hs, exists_eq_left]
  exact hloop

end Registry

end PgAuthz
