import PgAuthz.Keyed.Table
import PgAuthz.OpenFga.Groups
import PgAuthz.OpenFga.Userset

/-!
# The import of OpenFGA models

The import clears the rules and restrictions of a store, registers the types and relations of an
OpenFGA model, and translates each relation definition into groups of rules: the leaves of a union
share group 0, an intersection is a group of its own, and a difference is one exclusion group for each
alternative of its base. Anything nested deeper raises. An import that raises is rolled back. Names
stand for their ids; partitions and the kinds of relations are left out, as no rule reads them.

## Main definitions

* `StoreModel`: the model of a store, with its conditions and type restrictions
* `importRule`, `importExclusion`, `importDefinition`: the translation of a definition
* `importOpenfgaModel`, `call`: the import, and what it leaves of the store
* `StoreModel.Admits`: the tuples that may be written
* `Checks`: a check over an imported model

## Main results

* `translates_importDefinition`: the groups of a relation mean its definition
* `import_preserves_meaning`: an import raises and changes nothing, or keeps every meaning
-/

namespace PgAuthz.OpenFga

open Keyed Resolution

/-! ## The store -/

/-- A row of `authz.models`. -/
structure ModelRow extends Rule where
  allowObjectWildcard : Bool
deriving DecidableEq, Repr

/-- A row of `authz.type_restrictions`. -/
structure TypeRestriction where
  objectType : ℕ
  relation : ℕ
  allowedUserType : ℕ
  allowedUserRelation : Option ℕ
  allowWildcard : Bool
  conditionId : Option ℕ
deriving DecidableEq, Repr

/-- The model of a store. -/
structure StoreModel where
  types : List ℕ
  relations : List ℕ
  conditions : List Condition
  restrictions : List TypeRestriction
  models : List ModelRow

/-- What the import raises. -/
inductive ImportError
  | unknownType (type : ℕ)
  | unknownRelation (relation : ℕ)
  | unsupportedNode (type relation : ℕ) (node : Userset)
  | duplicateRule (rule : Rule)
  /-- `FOREACH expression must not be null`. -/
  | nullArray

namespace StoreModel

variable (s : StoreModel)

/-- `INSERT INTO authz.types … ON CONFLICT DO NOTHING`. -/
def registerType (type : ℕ) : StoreModel :=
  if type ∈ s.types then s else { s with types := s.types ++ [type] }

/-- `INSERT INTO authz.relations … ON CONFLICT DO NOTHING`. -/
def registerRelation (relation : ℕ) : StoreModel :=
  if relation ∈ s.relations then s else { s with relations := s.relations ++ [relation] }

/-- `_t`. -/
def requireType (type : ℕ) : Except ImportError Unit :=
  if type ∈ s.types then .ok () else .error (.unknownType type)

/-- `_r`. -/
def requireRelation (relation : ℕ) : Except ImportError Unit :=
  if relation ∈ s.relations then .ok () else .error (.unknownRelation relation)

/-- Two rules have the same key in the index `idx_models_unique`. -/
def sameRule (ρ ρ' : Rule) : Bool :=
  ρ.objectType = ρ'.objectType ∧ ρ.relation = ρ'.relation ∧ ρ.body = ρ'.body ∧
    ρ.groupId = ρ'.groupId ∧ ρ.negated = ρ'.negated

/-- `INSERT INTO authz.models`. -/
def insertRule (ρ : Rule) : Except ImportError StoreModel :=
  if s.models.any fun row => sameRule row.toRule ρ then .error (.duplicateRule ρ)
  else .ok { s with models := s.models ++ [⟨ρ, false⟩] }

/-- `INSERT INTO authz.type_restrictions … ON CONFLICT DO NOTHING`. -/
def insertRestriction (x : TypeRestriction) : StoreModel :=
  if x ∈ s.restrictions then s else { s with restrictions := s.restrictions ++ [x] }

/-- The rules of a relation. -/
def rulesAt (type relation : ℕ) : List Rule :=
  (s.models.map ModelRow.toRule).filter fun ρ => ρ.objectType = type ∧ ρ.relation = relation

/-- `_check_type_restriction`: the relation has no restrictions, or one of them has the shape of the
subject and leaves the condition open or names it. -/
def restrictionAllows (t : Tuple) : Prop :=
  (∀ x ∈ s.restrictions, ¬ (x.objectType = t.objectType ∧ x.relation = t.relation)) ∨
    ∃ x ∈ s.restrictions, (x.objectType = t.objectType ∧ x.relation = t.relation) ∧
      x.allowedUserType = t.userType ∧
      (if t.userId = wildcard then x.allowWildcard = true
        else match t.userRelation with
          | some r => x.allowedUserRelation = some r
          | none => x.allowedUserRelation = none ∧ x.allowWildcard = false) ∧
      (x.conditionId = none ∨ x.conditionId = t.conditionId)

/-- The object wildcard needs a direct rule that allows it. -/
def wildcardAllows (t : Tuple) : Prop :=
  t.objectId = wildcard → ∃ row ∈ s.models, row.objectType = t.objectType ∧
    row.relation = t.relation ∧ row.body = .direct ∧ row.allowObjectWildcard = true

/-- **The tuples that may be written.** -/
structure Admits (t : Tuple) : Prop where
  restriction : s.restrictionAllows t
  wildcard : s.wildcardAllows t

end StoreModel

/-! ## The translation of a definition -/

/-- The relations a leaf names. -/
def Leaf.relations : Leaf → List ℕ
  | .this => []
  | .computedUserset r => [r]
  | .tupleToUserset tupleset computed => [tupleset, computed]

mutual

/-- `_import_register_relations`. -/
def importRegisterRelations (s : StoreModel) : Userset → StoreModel
  | .rule l => l.relations.foldl StoreModel.registerRelation s
  | .union child => importRegisterAll s child
  | .intersection child => importRegisterAll s child
  | .difference base subtract =>
    importRegisterRelations (importRegisterRelations s base) subtract

/-- The loop of `_import_register_relations` over the children. -/
def importRegisterAll (s : StoreModel) : List Userset → StoreModel
  | [] => s
  | u :: us => importRegisterAll (importRegisterRelations s u) us

end

/-- The rule type of a leaf with its operands. -/
def Leaf.body : Leaf → RuleBody
  | .this => .direct
  | .computedUserset r => .computed r
  | .tupleToUserset tupleset computed => .ttu tupleset computed

section Definitions

variable (type relation : ℕ)

/-- `_import_rule`: a leaf becomes a rule of the group; an operator raises. -/
def importRule (groupId : ℤ) (groupOp : GroupOp) (negated : Bool) (s : StoreModel)
    (node : Userset) : Except ImportError StoreModel :=
  match node with
  | .rule l => do
    s.requireType type
    (relation :: l.relations).forM s.requireRelation
    s.insertRule ⟨type, relation, l.body, groupId, groupOp, negated⟩
  | node => .error (.unsupportedNode type relation node)

/-- The alternatives of a base or of a subtracted part. -/
def Userset.alternatives : Userset → List Userset
  | .union child => child
  | node => [node]

/-- `FOREACH` over an aggregate of no rows raises. -/
def nonNull : List Userset → Except ImportError (List Userset)
  | [] => .error .nullArray
  | us => .ok us

/-- One base alternative: its own group, with the subtracted rules. -/
def importAlternative (subtract : Userset) (st : StoreModel × ℤ) (base : Userset) :
    Except ImportError (StoreModel × ℤ) := do
  let s ← importRule type relation st.2 .exclusion false st.1 base
  let s ← (← nonNull subtract.alternatives).foldlM
    (importRule type relation st.2 .exclusion true) s
  return (s, st.2 + 1)

/-- `_import_exclusion`: the store and the next free group. -/
def importExclusion (base subtract : Userset) (st : StoreModel × ℤ) :
    Except ImportError (StoreModel × ℤ) := do
  (← nonNull base.alternatives).foldlM (importAlternative type relation subtract) st

/-- A child of a union: an operator has groups of its own, a leaf belongs to group 0. -/
def importChild (st : StoreModel × ℤ) : Userset → Except ImportError (StoreModel × ℤ)
  | .intersection child => do
    return (← child.foldlM (importRule type relation st.2 .and false) st.1, st.2 + 1)
  | .difference base subtract => importExclusion type relation base subtract st
  | node => do return (← importRule type relation 0 .or false st.1 node, st.2)

/-- The translation of a definition, from the group `v_next_group := 1`. -/
def importDefinition (s : StoreModel) : Userset → Except ImportError StoreModel
  | .union child => do return (← child.foldlM (importChild type relation) (s, 1)).1
  | .intersection child => child.foldlM (importRule type relation 1 .and false) s
  | .difference base subtract => do
    return (← importExclusion type relation base subtract (s, 1)).1
  | node => importRule type relation 0 .or false s node

end Definitions

/-! ## The import of a model -/

/-- The warning about a placeholder: the condition, and the relation whose facet names it. -/
structure Warning where
  condition : ℕ
  type : ℕ
  relation : ℕ
deriving DecidableEq, Repr

/-- The variables of the import. -/
structure Progress where
  store : StoreModel
  relations : List ℕ
  restrictionsImported : ℕ
  placeholders : List ℕ
  warnings : List Warning

/-- A condition that no tuple passes, until it is defined. -/
def denyAll (condition : ℕ) : Condition :=
  { id := condition, expression := "false", lang := .sql, requiredRequest := [],
    requiredStored := [], timeSource := .server }

/-- A condition a facet names: one the store does not have becomes a placeholder. -/
def bindCondition (type relation : ℕ) (p : Progress) (condition : ℕ) : Progress :=
  if p.store.conditions.any fun c => c.id = condition then p
  else
    let p := { p with
      store := { p.store with conditions := p.store.conditions ++ [denyAll condition] } }
    if condition ∈ p.placeholders then p
    else { p with
      placeholders := p.placeholders ++ [condition]
      warnings := p.warnings ++ [⟨condition, type, relation⟩] }

/-- An entry of `directly_related_user_types`. The names of its restriction have been registered, so
their lookups find them. -/
def importReference (type relation : ℕ) (p : Progress) (x : RelationReference) : Progress :=
  let p := match x.condition with
    | some c => bindCondition type relation p c
    | none => p
  let s := p.store.registerType x.type
  let s := match x.relation, x.wildcard with
    | some r, _ => (s.registerRelation r).insertRestriction
        ⟨type, relation, x.type, some r, false, x.condition⟩
    | none, true => s.insertRestriction ⟨type, relation, x.type, none, true, x.condition⟩
    | none, false => s.insertRestriction ⟨type, relation, x.type, none, false, x.condition⟩
  { p with store := s, restrictionsImported := p.restrictionsImported + 1 }

/-- The loop body over the relations of a type. -/
def importRelation (type : ℕ) (p : Progress) (e : RelationDefinition) :
    Except ImportError Progress := do
  let p := { p with
    store := importRegisterRelations (p.store.registerRelation e.name) e.rewrite
    relations := if e.name ∈ p.relations then p.relations else p.relations ++ [e.name] }
  let p := (e.directlyRelatedUserTypes.getD []).foldl (importReference type e.name) p
  let store ← importDefinition type e.name p.store e.rewrite
  return { p with store := store }

/-- The summary the import returns. -/
structure Summary where
  types : List ℕ
  relations : List ℕ
  rulesImported : ℕ
  rulesReplaced : ℕ
  typeRestrictionsImported : ℕ
  placeholderConditions : List ℕ
  warnings : List Warning

/-- `import_openfga_model`. -/
def importOpenfgaModel (s : StoreModel) (m : AuthorizationModel) :
    Except ImportError (StoreModel × Summary) := do
  let types := m.typeDefinitions.map TypeDefinition.type
  let cleared := types.foldl StoreModel.registerType { s with restrictions := [], models := [] }
  let p ← m.typeDefinitions.foldlM (fun p d => d.relations.foldlM (importRelation d.type) p)
    ⟨cleared, [], 0, [], []⟩
  return (p.store,
    { types, relations := p.relations, rulesImported := p.store.models.length,
      rulesReplaced := s.models.length, typeRestrictionsImported := p.restrictionsImported,
      placeholderConditions := p.placeholders, warnings := p.warnings })

/-- The call: an import that raises is rolled back. -/
def call (s : StoreModel) (m : AuthorizationModel) : StoreModel × Except ImportError Summary :=
  match importOpenfgaModel s m with
  | .ok (s', summary) => (s', .ok summary)
  | .error e => (s, .error e)

/-! ## The groups of a definition -/

/-- The store with more rules. -/
def StoreModel.addRules (s : StoreModel) (new : List Rule) : StoreModel :=
  { s with models := s.models ++ new.map (⟨·, false⟩) }

@[simp]
theorem StoreModel.addRules_nil (s : StoreModel) : s.addRules [] = s := by
  simp [StoreModel.addRules]

@[simp]
theorem StoreModel.addRules_addRules (s : StoreModel) (rs new : List Rule) :
    (s.addRules rs).addRules new = s.addRules (rs ++ new) := by
  simp [StoreModel.addRules]

section Translation

variable {type relation : ℕ}

/-- The rules `rs` of the relation use groups below `next`, group 0 for alternatives only, and together
have the meaning `M`. -/
structure Translates (type relation : ℕ) (rs : List Rule) (next : ℤ)
    (M : (Bool → Leaf → Prop) → Prop) : Prop where
  key : ∀ ρ ∈ rs, ρ.objectType = type ∧ ρ.relation = relation
  fresh : 1 ≤ next
  below : ∀ ρ ∈ rs, ρ.groupId < next
  ordinary : ∀ ρ ∈ rs, ρ.groupId < 1 → ρ.groupOp = .or
  grouped : WellGrouped rs
  means : ∀ term : Bool → RuleBody → Prop,
    SomeGroupMeans rs term ↔ M fun added l => term added l.body

theorem translates_nil : Translates type relation [] 1 fun _ => False where
  key _ h := absurd h List.not_mem_nil
  fresh := le_refl 1
  below _ h := absurd h List.not_mem_nil
  ordinary _ h := absurd h List.not_mem_nil
  grouped := wellGrouped_nil
  means _ := iff_of_false not_someGroupMeans_nil id

/-- The rule of a leaf. -/
def Leaf.toRule (type relation : ℕ) (groupId : ℤ) (groupOp : GroupOp) (negated : Bool) (l : Leaf) :
    Rule :=
  ⟨type, relation, l.body, groupId, groupOp, negated⟩

variable {rs : List Rule} {next : ℤ} {M : (Bool → Leaf → Prop) → Prop}

/-- A leaf in group 0 is an alternative. -/
theorem Translates.addLeaf (h : Translates type relation rs next M) (l : Leaf) :
    Translates type relation (rs ++ [l.toRule type relation 0 .or false]) next
      fun leaf => M leaf ∨ leaf true l := by
  have hzero : ∀ ρ ∈ rs, ρ.groupId = 0 → ρ.groupOp = .or := fun ρ hρ hg =>
    h.ordinary ρ hρ (by omega)
  have hnew : ∀ {p : Rule → Prop}, (∀ ρ ∈ rs, p ρ) → p (l.toRule type relation 0 .or false) →
      ∀ ρ ∈ rs ++ [l.toRule type relation 0 .or false], p ρ := fun hrs hl ρ hρ => by
    rcases List.mem_append.mp hρ with hρ | hρ
    · exact hrs ρ hρ
    · rwa [List.mem_singleton.mp hρ]
  refine ⟨hnew h.key ⟨rfl, rfl⟩, h.fresh, hnew h.below ?_, hnew h.ordinary fun _ => rfl, ?_, ?_⟩
  · show (0 : ℤ) < next
    have := h.fresh
    omega
  · have hone : WellGrouped [l.toRule type relation 0 .or false] :=
      @wellGrouped_block _ 0 .or (by simp [Leaf.toRule]) (by simp [Leaf.toRule])
    refine h.grouped.append hone ?_
    intro ρ hρ ρ' hρ' hg
    rw [List.mem_singleton.mp hρ'] at hg ⊢
    exact hzero ρ hρ hg
  · intro term
    rw [someGroupMeans_concat rfl hzero, h.means term, literal_of_added rfl]
    rfl

/-- A conjunction or an exclusion in the next group is an alternative. -/
theorem Translates.addGroup (h : Translates type relation rs next M) {new : List Rule} {op : GroupOp}
    (hop : op ≠ .or) (hkey : ∀ ρ ∈ new, ρ.objectType = type ∧ ρ.relation = relation)
    (hnew : ∀ ρ ∈ new, ρ.groupId = next ∧ ρ.groupOp = op)
    (hadd : ∀ ρ ∈ new, op ≠ .exclusion → ρ.negated = false)
    {M' : (Bool → Leaf → Prop) → Prop} (hM : ∀ term : Bool → RuleBody → Prop,
      ((∃ ρ ∈ new, ρ.negated = false) ∧ ∀ ρ ∈ new, Literal term ρ) ↔
        M' fun added l => term added l.body) :
    Translates type relation (rs ++ new) (next + 1) fun leaf => M leaf ∨ M' leaf := by
  have hfresh := h.fresh
  have hne : ∀ ρ ∈ rs, ∀ ρ' ∈ new, ρ.groupId ≠ ρ'.groupId := fun ρ hρ ρ' hρ' => by
    have := h.below ρ hρ
    have := (hnew ρ' hρ').1
    omega
  have hboth : ∀ {p : Rule → Prop}, (∀ ρ ∈ rs, p ρ) → (∀ ρ ∈ new, p ρ) → ∀ ρ ∈ rs ++ new, p ρ :=
    fun hrs hn ρ hρ => (List.mem_append.mp hρ).elim (hrs ρ) (hn ρ)
  refine ⟨hboth h.key hkey, by omega, hboth ?_ ?_, hboth h.ordinary ?_, ?_, ?_⟩
  · intro ρ hρ
    have := h.below ρ hρ
    omega
  · intro ρ hρ
    have := (hnew ρ hρ).1
    omega
  · intro ρ hρ hlt
    have := (hnew ρ hρ).1
    omega
  · exact h.grouped.append (wellGrouped_block hnew hadd)
      fun ρ hρ ρ' hρ' hg => absurd hg (hne ρ hρ ρ' hρ')
  · intro term
    rw [someGroupMeans_append hne, h.means term, someGroupMeans_block hop hnew, hM]

/-- A step of the translation adds rules that are alternatives with the meaning `M'`. -/
def Adds (type relation : ℕ) (st st' : StoreModel × ℤ) (M' : (Bool → Leaf → Prop) → Prop) : Prop :=
  ∃ new, st'.1 = st.1.addRules new ∧ ∀ rs M, Translates type relation rs st.2 M →
    Translates type relation (rs ++ new) st'.2 fun leaf => M leaf ∨ M' leaf

variable {st st' st'' : StoreModel × ℤ} {M' M'' : (Bool → Leaf → Prop) → Prop}

theorem Adds.congr (h : Adds type relation st st' M') (hM : ∀ leaf, M' leaf ↔ M'' leaf) :
    Adds type relation st st' M'' := by
  obtain rfl : M' = M'' := funext fun leaf => propext (hM leaf)
  exact h

theorem Adds.refl (st : StoreModel × ℤ) : Adds type relation st st fun _ => False :=
  ⟨[], by simp, fun rs M h => by simpa using h⟩

theorem Adds.trans (h : Adds type relation st st' M') (h' : Adds type relation st' st'' M'') :
    Adds type relation st st'' fun leaf => M' leaf ∨ M'' leaf := by
  obtain ⟨new, hs, hnew⟩ := h
  obtain ⟨new', hs', hnew'⟩ := h'
  refine ⟨new ++ new', by rw [hs', hs, StoreModel.addRules_addRules], fun rs M hrs => ?_⟩
  have := hnew' _ _ (hnew rs M hrs)
  simpa only [List.append_assoc, or_assoc] using this

/-- The steps of a loop add the alternatives of its elements. -/
theorem adds_foldlM {f : StoreModel × ℤ → Userset → Except ImportError (StoreModel × ℤ)}
    {meaning : Userset → (Bool → Leaf → Prop) → Prop} {us : List Userset}
    (h : us.foldlM f st = .ok st')
    (hf : ∀ st st' u, f st u = .ok st' → Adds type relation st st' (meaning u)) :
    Adds type relation st st' fun leaf => ∃ u ∈ us, meaning u leaf := by
  induction us generalizing st with
  | nil =>
    obtain rfl := Except.ok.inj h
    exact (Adds.refl st).congr fun leaf => by simp
  | cons u us ih =>
    rw [List.foldlM_cons] at h
    obtain ⟨mid, hu, hus⟩ := bind_eq_ok_iff.mp h
    exact ((hf _ _ _ hu).trans (ih hus)).congr fun leaf => by simp

theorem insertRule_eq_ok {s s' : StoreModel} {ρ : Rule} (h : s.insertRule ρ = .ok s') :
    s' = s.addRules [ρ] := by
  unfold StoreModel.insertRule at h
  split at h
  · cases h
  · exact (Except.ok.inj h).symm

/-- A rule is imported from a leaf. -/
theorem importRule_eq_ok {g : ℤ} {op : GroupOp} {negated : Bool} {s s' : StoreModel}
    {node : Userset} (h : importRule type relation g op negated s node = .ok s') :
    ∃ l, node = .rule l ∧ s' = s.addRules [l.toRule type relation g op negated] := by
  cases node with
  | rule l =>
    obtain ⟨_, -, h⟩ := bind_eq_ok_iff.mp h
    obtain ⟨_, -, h⟩ := bind_eq_ok_iff.mp h
    exact ⟨l, rfl, insertRule_eq_ok h⟩
  | _ => cases h

/-- A list of leaves is imported into one group. -/
theorem importRules_eq_ok {g : ℤ} {op : GroupOp} {negated : Bool} {s s' : StoreModel}
    {us : List Userset} (h : us.foldlM (importRule type relation g op negated) s = .ok s') :
    ∃ ls : List Leaf, us = ls.map .rule ∧
      s' = s.addRules (ls.map (Leaf.toRule type relation g op negated)) := by
  induction us generalizing s with
  | nil =>
    obtain rfl := Except.ok.inj h
    exact ⟨[], rfl, by simp⟩
  | cons u us ih =>
    rw [List.foldlM_cons] at h
    obtain ⟨mid, hu, hus⟩ := bind_eq_ok_iff.mp h
    obtain ⟨l, rfl, rfl⟩ := importRule_eq_ok hu
    obtain ⟨ls, rfl, rfl⟩ := ih hus
    exact ⟨l :: ls, rfl, by simp⟩

/-- An intersection of leaves is a group of its own. -/
theorem adds_intersection {s s' : StoreModel} {child : List Userset}
    (h : child.foldlM (importRule type relation next .and false) s = .ok s') :
    Adds type relation (s, next) (s', next + 1) ((Userset.intersection child).Means · true) := by
  obtain ⟨ls, rfl, rfl⟩ := importRules_eq_ok h
  refine ⟨_, rfl, fun rs M hrs => hrs.addGroup (show GroupOp.and ≠ .or from nofun) ?_ ?_ ?_ ?_⟩
  · simp [Leaf.toRule]
  · simp [Leaf.toRule]
  · simp [Leaf.toRule]
  · intro term
    simp only [Userset.means_intersection, List.forall_mem_map, Userset.means_rule]
    refine and_congr ?_ (forall₂_congr fun l _ => literal_of_added rfl)
    cases ls <;> simp [Leaf.toRule]

/-- A tree means its alternatives. -/
theorem Userset.means_alternatives {leaf : Bool → Leaf → Prop} {added : Bool} {u : Userset} :
    u.Means leaf added ↔ ∃ a ∈ u.alternatives, a.Means leaf added := by
  cases u <;> simp [Userset.alternatives]

theorem nonNull_eq_ok {us us' : List Userset} (h : nonNull us = .ok us') : us' = us := by
  cases us with
  | nil => cases h
  | cons u us => exact (Except.ok.inj h).symm

/-- A base alternative with the subtracted leaves is a group of its own. -/
theorem adds_alternative {subtract u : Userset}
    (h : importAlternative type relation subtract st u = .ok st') :
    Adds type relation st st' fun leaf => (Userset.difference u subtract).Means leaf true := by
  obtain ⟨s, hu, h⟩ := bind_eq_ok_iff.mp h
  obtain ⟨us, hus, h⟩ := bind_eq_ok_iff.mp h
  obtain ⟨s', hs', h⟩ := bind_eq_ok_iff.mp h
  obtain rfl := Except.ok.inj h
  obtain ⟨l, rfl, rfl⟩ := importRule_eq_ok hu
  obtain ⟨ls, hls, rfl⟩ := importRules_eq_ok hs'
  rw [nonNull_eq_ok hus] at hls
  rw [StoreModel.addRules_addRules]
  refine ⟨_, rfl, fun rs M hrs => hrs.addGroup (show GroupOp.exclusion ≠ .or from nofun) ?_ ?_ ?_ ?_⟩
  · simp [Leaf.toRule]
  · simp [Leaf.toRule]
  · exact fun ρ _ h => absurd rfl h
  · intro term
    -- the base is the one rule that is not negated, and a subtracted part means its alternatives
    rw [Userset.means_difference, Userset.means_rule, Userset.means_alternatives, hls]
    simp [Leaf.toRule, Literal]

/-- A difference is one group for each alternative of its base. -/
theorem adds_exclusion {base subtract : Userset}
    (h : importExclusion type relation base subtract st = .ok st') :
    Adds type relation st st' fun leaf => (Userset.difference base subtract).Means leaf true := by
  obtain ⟨us, hus, h⟩ := bind_eq_ok_iff.mp h
  refine (adds_foldlM h fun _ _ _ => adds_alternative).congr fun leaf => ?_
  rw [Userset.means_difference, Userset.means_alternatives, nonNull_eq_ok hus]
  simp only [Userset.means_difference]
  constructor
  · rintro ⟨u, hu, hm, hs⟩
    exact ⟨⟨u, hu, hm⟩, hs⟩
  · rintro ⟨⟨u, hu, hm⟩, hs⟩
    exact ⟨u, hu, hm, hs⟩

/-- A leaf in group 0. -/
theorem adds_rule {s' : StoreModel} {node : Userset}
    (h : importRule type relation 0 .or false st.1 node = .ok s') :
    Adds type relation st (s', st.2) fun leaf => node.Means leaf true := by
  obtain ⟨l, rfl, rfl⟩ := importRule_eq_ok h
  refine Adds.congr ⟨_, rfl, fun rs M hrs => hrs.addLeaf l⟩ fun leaf => ?_
  rw [Userset.means_rule]

theorem adds_child {u : Userset} (h : importChild type relation st u = .ok st') :
    Adds type relation st st' fun leaf => u.Means leaf true := by
  cases u with
  | intersection child =>
    obtain ⟨s, hs, h⟩ := bind_eq_ok_iff.mp h
    obtain rfl := Except.ok.inj h
    exact adds_intersection hs
  | difference base subtract => exact adds_exclusion h
  | _ =>
    obtain ⟨s, hs, h⟩ := bind_eq_ok_iff.mp h
    obtain rfl := Except.ok.inj h
    exact adds_rule hs

/-- **The groups of a relation mean its definition.** -/
theorem translates_importDefinition {s s' : StoreModel} {u : Userset}
    (h : importDefinition type relation s u = .ok s') :
    ∃ new next, s' = s.addRules new ∧
      Translates type relation new next fun leaf => u.Means leaf true := by
  obtain ⟨next, new, hs, hnew⟩ : ∃ next, Adds type relation (s, 1) (s', next)
      fun leaf => u.Means leaf true := by
    cases u with
    | union child =>
      obtain ⟨st, hst, h⟩ := bind_eq_ok_iff.mp h
      obtain rfl := Except.ok.inj h
      exact ⟨st.2, (adds_foldlM hst fun _ _ _ => adds_child).congr fun leaf => by simp⟩
    | intersection child => exact ⟨_, adds_intersection h⟩
    | difference base subtract =>
      obtain ⟨st, hst, h⟩ := bind_eq_ok_iff.mp h
      obtain rfl := Except.ok.inj h
      exact ⟨st.2, adds_exclusion hst⟩
    | rule l => exact ⟨1, adds_rule h⟩
  exact ⟨new, next, hs, by simpa using hnew [] _ translates_nil⟩

end Translation

/-! ## The rules of an imported model -/

theorem rulesAt_of_models {s s' : StoreModel} {new : List Rule} {T r T' r' : ℕ}
    (h : s'.models = s.models ++ new.map (⟨·, false⟩))
    (hkey : ∀ ρ ∈ new, ρ.objectType = T ∧ ρ.relation = r) :
    s'.rulesAt T' r' = s.rulesAt T' r' ++ if T = T' ∧ r = r' then new else [] := by
  have hnew : new.filter (fun ρ => ρ.objectType = T' ∧ ρ.relation = r') =
      if T = T' ∧ r = r' then new else [] := by
    split_ifs with heq
    · refine List.filter_eq_self.mpr fun ρ hρ => ?_
      simpa [(hkey ρ hρ).1, (hkey ρ hρ).2]
    · refine List.filter_eq_nil_iff.mpr fun ρ hρ => ?_
      simpa [(hkey ρ hρ).1, (hkey ρ hρ).2] using not_and.mp heq
  simp only [StoreModel.rulesAt, h, List.map_append, List.filter_append, List.map_map]
  rw [← hnew]
  congr 2
  exact List.map_id new

theorem models_foldl {α β : Type} {models : β → List ModelRow} {f : β → α → β}
    (hf : ∀ b a, models (f b a) = models b) (xs : List α) (b : β) :
    models (xs.foldl f b) = models b := by
  induction xs generalizing b with
  | nil => rfl
  | cons x xs ih => rw [List.foldl_cons, ih, hf]

theorem models_registerType (s : StoreModel) (T : ℕ) : (s.registerType T).models = s.models := by
  unfold StoreModel.registerType
  split <;> rfl

theorem models_registerRelation (s : StoreModel) (r : ℕ) :
    (s.registerRelation r).models = s.models := by
  unfold StoreModel.registerRelation
  split <;> rfl

theorem models_insertRestriction (s : StoreModel) (x : TypeRestriction) :
    (s.insertRestriction x).models = s.models := by
  unfold StoreModel.insertRestriction
  split <;> rfl

theorem models_importRegisterRelations (u : Userset) (s : StoreModel) :
    (importRegisterRelations s u).models = s.models := by
  have hall : ∀ us : List Userset, (∀ u ∈ us, ∀ s, (importRegisterRelations s u).models = s.models) →
      ∀ s, (importRegisterAll s us).models = s.models := by
    intro us
    induction us with
    | nil => exact fun _ _ => by rw [importRegisterAll]
    | cons u us ih =>
      intro h s
      rw [importRegisterAll, ih (fun v hv => h v (.tail _ hv)), h u (.head _)]
  induction u using Userset.tree_induction generalizing s with
  | rule l =>
    rw [importRegisterRelations]
    exact models_foldl models_registerRelation _ _
  | union child ih =>
    rw [importRegisterRelations]
    exact hall child ih s
  | intersection child ih =>
    rw [importRegisterRelations]
    exact hall child ih s
  | difference base subtract ihb ihs => rw [importRegisterRelations, ihs, ihb]

theorem models_importReference (T r : ℕ) (p : Progress) (x : RelationReference) :
    (importReference T r p x).store.models = p.store.models := by
  have hbind : ∀ c, (bindCondition T r p c).store.models = p.store.models := fun c => by
    unfold bindCondition
    split
    · rfl
    · dsimp only
      split <;> rfl
  unfold importReference
  cases x.condition <;> cases x.relation <;> cases x.wildcard <;>
    simp only [models_insertRestriction, models_registerRelation, models_registerType, hbind]

/-- A relation adds the rules of its definition. -/
theorem importRelation_eq_ok {T : ℕ} {p p' : Progress} {e : RelationDefinition}
    (h : importRelation T p e = .ok p') :
    ∃ new next, p'.store.models = p.store.models ++ new.map (⟨·, false⟩) ∧
      Translates T e.name new next fun leaf => e.rewrite.Means leaf true := by
  obtain ⟨s, hs, h⟩ := bind_eq_ok_iff.mp h
  obtain rfl := Except.ok.inj h
  obtain ⟨new, next, rfl, hnew⟩ := translates_importDefinition hs
  refine ⟨new, next, ?_, hnew⟩
  have hrefs := @models_foldl _ _ (fun p : Progress => p.store.models) _
    (models_importReference T e.name)
  simp only [StoreModel.addRules, hrefs, models_importRegisterRelations, models_registerRelation]

/-- The relation definitions of a model with their types. -/
def AuthorizationModel.definitions (m : AuthorizationModel) : List (ℕ × RelationDefinition) :=
  m.typeDefinitions.flatMap fun d => d.relations.map (d.type, ·)

/-- The relation a definition is of. -/
def definitionKey (x : ℕ × RelationDefinition) : ℕ × ℕ := (x.1, x.2.name)

theorem AuthorizationModel.nodup_definitions (m : AuthorizationModel) :
    (m.definitions.map definitionKey).Nodup := by
  rw [AuthorizationModel.definitions, List.map_flatMap, List.nodup_flatMap]
  constructor
  · intro d _
    have hinj : Function.Injective fun r : ℕ => (d.type, r) := fun _ _ h => (Prod.mk.inj h).2
    have := d.nodup.map hinj
    rwa [List.map_map] at this ⊢
  · refine (List.pairwise_map.mp m.nodup).imp fun {d d'} hne => ?_
    -- the keys of two types differ in the type
    rw [Function.onFun, List.disjoint_left]
    rintro k hk hk'
    simp only [List.map_map, List.mem_map, Function.comp, definitionKey] at hk hk'
    obtain ⟨_, -, rfl⟩ := hk
    obtain ⟨_, -, heq⟩ := hk'
    exact hne (Prod.mk.inj heq).1.symm

theorem AuthorizationModel.defines_iff {m : AuthorizationModel} {T r : ℕ} {u : Userset} :
    m.Defines T r u ↔ ∃ x ∈ m.definitions, definitionKey x = (T, r) ∧ x.2.rewrite = u := by
  simp only [AuthorizationModel.Defines, AuthorizationModel.definitions, definitionKey,
    List.mem_flatMap, List.mem_map]
  constructor
  · rintro ⟨d, hd, rfl, e, he, rfl, rfl⟩
    exact ⟨(d.type, e), ⟨d, hd, e, he, rfl⟩, rfl, rfl⟩
  · rintro ⟨_, ⟨d, hd, e, he, rfl⟩, hkey, rfl⟩
    obtain ⟨rfl, rfl⟩ := Prod.mk.inj hkey
    exact ⟨d, hd, rfl, e, he, rfl, rfl⟩

/-- The loops over the types and their relations are one loop over the definitions. -/
theorem foldlM_definitions {ds : List TypeDefinition} {p : Progress} :
    ds.foldlM (fun p d => d.relations.foldlM (importRelation d.type) p) p =
      (ds.flatMap fun d => d.relations.map (d.type, ·)).foldlM
        (fun p x => importRelation x.1 p x.2) p := by
  induction ds generalizing p with
  | nil => rfl
  | cons d ds ih =>
    rw [List.foldlM_cons, List.flatMap_cons, List.foldlM_append, List.foldlM_map]
    exact bind_congr fun p' => ih

/-- The rules each relation has after a run of the loop. -/
theorem rulesAt_foldlM {ds : List (ℕ × RelationDefinition)} {p p' : Progress}
    (h : ds.foldlM (fun p x => importRelation x.1 p x.2) p = .ok p')
    (hnodup : (ds.map definitionKey).Nodup)
    (hnone : ∀ x ∈ ds, p.store.rulesAt x.1 x.2.name = []) (T r : ℕ) :
    (∀ x ∈ ds, definitionKey x = (T, r) → ∃ next,
        Translates T r (p'.store.rulesAt T r) next fun leaf => x.2.rewrite.Means leaf true) ∧
      ((∀ x ∈ ds, definitionKey x ≠ (T, r)) → p'.store.rulesAt T r = p.store.rulesAt T r) := by
  induction ds generalizing p with
  | nil =>
    obtain rfl := Except.ok.inj h
    exact ⟨fun x hx => absurd hx List.not_mem_nil, fun _ => rfl⟩
  | cons d ds ih =>
    rw [List.foldlM_cons] at h
    obtain ⟨mid, hd, hds⟩ := bind_eq_ok_iff.mp h
    obtain ⟨new, next, hmodels, hnew⟩ := importRelation_eq_ok hd
    obtain ⟨hfirst, hrest⟩ := List.nodup_cons.mp hnodup
    have hother : ∀ {T r}, definitionKey d ≠ (T, r) →
        mid.store.rulesAt T r = p.store.rulesAt T r := fun hne => by
      rw [rulesAt_of_models hmodels hnew.key, if_neg, List.append_nil]
      exact fun ⟨hT, hr⟩ => hne (Prod.ext hT hr)
    have hne : ∀ x ∈ ds, definitionKey d ≠ definitionKey x := fun x hx heq =>
      hfirst (heq ▸ List.mem_map_of_mem hx)
    obtain ⟨htrans, hkeep⟩ := ih hds hrest fun x hx =>
      (hother (hne x hx)).trans (hnone x (.tail _ hx))
    refine ⟨fun x hx hkey => ?_, fun hnot => ?_⟩
    · rcases List.mem_cons.mp hx with rfl | hx
      · -- the definitions after it leave its rules alone
        have hmine : mid.store.rulesAt T r = new := by
          obtain ⟨rfl, rfl⟩ := Prod.mk.inj hkey
          rw [rulesAt_of_models hmodels hnew.key, if_pos ⟨rfl, rfl⟩, hnone x (.head _),
            List.nil_append]
        rw [hkeep fun y hy => hkey ▸ (hne y hy).symm, hmine]
        obtain ⟨rfl, rfl⟩ := Prod.mk.inj hkey
        exact ⟨next, hnew⟩
      · exact htrans x hx hkey
    · rw [hkeep fun x hx => hnot x (.tail _ hx), hother (hnot d (.head _))]

/-- No imported rule allows the object wildcard. -/
theorem noWildcard_foldlM {ds : List (ℕ × RelationDefinition)} {p p' : Progress}
    (h : ds.foldlM (fun p x => importRelation x.1 p x.2) p = .ok p')
    (hp : ∀ row ∈ p.store.models, row.allowObjectWildcard = false) :
    ∀ row ∈ p'.store.models, row.allowObjectWildcard = false := by
  induction ds generalizing p with
  | nil =>
    obtain rfl := Except.ok.inj h
    exact hp
  | cons d ds ih =>
    rw [List.foldlM_cons] at h
    obtain ⟨mid, hd, hds⟩ := bind_eq_ok_iff.mp h
    obtain ⟨new, -, hmodels, -⟩ := importRelation_eq_ok hd
    refine ih hds fun row hrow => ?_
    rw [hmodels, List.mem_append] at hrow
    rcases hrow with hrow | hrow
    · exact hp row hrow
    · obtain ⟨_, -, rfl⟩ := List.mem_map.mp hrow
      rfl

/-- The rules of an imported store are the translated definitions. -/
structure Represents (s : StoreModel) (m : AuthorizationModel) : Prop where
  defined : ∀ T r u, m.Defines T r u → ∃ next,
    Translates T r (s.rulesAt T r) next fun leaf => u.Means leaf true
  undefined : ∀ T r, (∀ u, ¬ m.Defines T r u) → s.rulesAt T r = []
  noWildcard : ∀ row ∈ s.models, row.allowObjectWildcard = false

theorem represents_of_import {s s' : StoreModel} {m : AuthorizationModel} {summary : Summary}
    (h : importOpenfgaModel s m = .ok (s', summary)) : Represents s' m := by
  obtain ⟨p, hp, h⟩ := bind_eq_ok_iff.mp h
  obtain ⟨rfl, -⟩ := Prod.mk.inj (Except.ok.inj h)
  rw [foldlM_definitions] at hp
  -- the import starts from a store without rules
  have hcleared : ∀ ts : List ℕ,
      (ts.foldl StoreModel.registerType { s with restrictions := [], models := [] }).models = [] :=
    fun ts => models_foldl models_registerType ts _
  have hrules := rulesAt_foldlM hp m.nodup_definitions fun x _ => by
    simp only [StoreModel.rulesAt, hcleared, List.map_nil, List.filter_nil]
  refine ⟨fun T r u hu => ?_, fun T r hnone => ?_, noWildcard_foldlM hp ?_⟩
  · obtain ⟨x, hx, hkey, rfl⟩ := AuthorizationModel.defines_iff.mp hu
    exact (hrules T r).1 x hx hkey
  · rw [(hrules T r).2 fun x hx hkey => hnone _ (AuthorizationModel.defines_iff.mpr ⟨x, hx, hkey, rfl⟩)]
    simp only [StoreModel.rulesAt, hcleared, List.map_nil, List.filter_nil]
  · simp only [hcleared]
    exact fun row hrow => absurd hrow List.not_mem_nil

/-! ## Checks over an imported model -/

/-- A check of the store: it reads the rules of the store and tuples that may be written. -/
structure Checks (s : StoreModel) (env : CheckEnv) : Prop where
  rules : env.rules = s.models.map ModelRow.toRule
  conditions : env.conditions = s.conditions
  tuples : ∀ t ∈ env.tuples, s.Admits t
  exclude : env.exclude = none

variable {env : CheckEnv}

theorem passes_ofContext {assume : Bool} {t : CtxTuple} : Passes env assume (ofContext t) := rfl

theorem exists_tupleSet {p : Tuple → Prop} : (∃ t ∈ tupleSet env, p t) ↔
    (∃ t ∈ env.tuples, p t) ∨ (env.hasCtxTuples ∧ ∃ t ∈ env.ctxTuples, p (ofContext t)) := by
  simp only [tupleSet, List.mem_append, or_and_right, exists_or]
  refine or_congr Iff.rfl ?_
  cases env.hasCtxTuples <;> simp

theorem takesIn_of_none {X : Set Question} {assume : Bool} {t : Tuple} (h : t.userRelation = none) :
    TakesIn env X assume t ↔
      t.userType = env.userType ∧ (t.userId = env.userId ∨ t.userId = wildcard) := by
  rw [TakesIn, h]

theorem takesIn_of_some {X : Set Question} {assume : Bool} {t : Tuple} {r : ℕ}
    (h : t.userRelation = some r) :
    TakesIn env X assume t ↔ ⟨⟨r, t.userType, t.userId⟩, assume⟩ ∈ X := by
  rw [TakesIn, h]

theorem usersetNode_eq_some {n n' : Node} {t : Tuple} (hw : t.objectId ≠ wildcard) :
    usersetNode n t = some n' ↔ OnObject n.relation n t ∧
      ∃ r, t.userRelation = some r ∧ n' = ⟨r, t.userType, t.userId⟩ := by
  cases hr : t.userRelation <;> grind [usersetNode, OnObject]

theorem ctxUsersetNode_eq_some {n n' : Node} {t : CtxTuple} :
    ctxUsersetNode n t = some n' ↔ OnObject n.relation n (ofContext t) ∧
      ∃ r, t.userRelation = some r ∧ n' = ⟨r, t.userType, t.userId⟩ := by
  cases hr : t.userRelation <;> grind [ctxUsersetNode, OnObject, ofContext]

theorem linkNode_eq_some {n n' : Node} {ts c : ℕ} {t : Tuple} :
    linkNode n ts c t = some n' ↔
      OnObject ts n t ∧ t.userRelation = none ∧ n' = ⟨c, t.userType, t.userId⟩ := by
  grind [linkNode, OnObject]

theorem ctxLinkNode_eq_some {n n' : Node} {ts c : ℕ} {t : CtxTuple} :
    ctxLinkNode n ts c t = some n' ↔
      OnObject ts n (ofContext t) ∧ t.userRelation = none ∧ n' = ⟨c, t.userType, t.userId⟩ := by
  grind [ctxLinkNode, OnObject, ofContext]

/-- A stored tuple of a relation grants it, or names a userset of it. -/
theorem stored_iff {X : Set Question} {q : Question} (hw : ∀ t ∈ env.tuples, t.objectId ≠ wildcard)
    (hx : env.exclude = none) :
    (∃ t ∈ env.tuples, OnObject q.node.relation q.node t ∧ Passes env q.assume t ∧
        TakesIn env X q.assume t) ↔
      StoredGrant env q.assume q.node ∨ ∃ n', (∃ t ∈ env.tuples, usersetNode q.node t = some n' ∧
        Passes env q.assume t) ∧ ⟨n', q.assume⟩ ∈ X := by
  constructor
  · rintro ⟨t, ht, hon, hpass, hin⟩
    cases hr : t.userRelation with
    | none =>
      obtain ⟨htype, hid⟩ := (takesIn_of_none hr).mp hin
      have hkept : ¬ LeftOut env t := by simp [LeftOut, hx]
      exact .inl ⟨t, ht, hon.1, hon.2.1, .inl ⟨hon.2.2, hkept⟩, htype, hid, hr, hpass⟩
    | some r =>
      have hn := (usersetNode_eq_some (hw t ht)).mpr ⟨hon, r, hr, rfl⟩
      exact .inr ⟨_, ⟨t, ht, hn, hpass⟩, (takesIn_of_some hr).mp hin⟩
  · rintro (⟨t, ht, hrel, htype, hobj, hut, hid, hr, hpass⟩ | ⟨n', ⟨t, ht, hn, hpass⟩, hX⟩)
    · have hobj : t.objectId = q.node.objectId := hobj.elim And.left fun h => absurd h (hw t ht)
      exact ⟨t, ht, ⟨hrel, htype, hobj⟩, hpass, (takesIn_of_none hr).mpr ⟨hut, hid⟩⟩
    · obtain ⟨hon, r, hr, rfl⟩ := (usersetNode_eq_some (hw t ht)).mp hn
      exact ⟨t, ht, hon, hpass, (takesIn_of_some hr).mpr hX⟩

/-- A contextual tuple of a relation grants it, or names a userset of it. -/
theorem contextual_iff {X : Set Question} {q : Question} :
    (env.hasCtxTuples ∧ ∃ t ∈ env.ctxTuples, OnObject q.node.relation q.node (ofContext t) ∧
        Passes env q.assume (ofContext t) ∧ TakesIn env X q.assume (ofContext t)) ↔
      ContextualGrant env q.node ∨ ∃ n', (env.hasCtxTuples ∧ ∃ t ∈ env.ctxTuples,
        ctxUsersetNode q.node t = some n') ∧ ⟨n', q.assume⟩ ∈ X := by
  constructor
  · rintro ⟨hctx, t, ht, hon, -, hin⟩
    cases hr : t.userRelation with
    | none =>
      obtain ⟨htype, hid⟩ := (takesIn_of_none (t := ofContext t) hr).mp hin
      exact .inl ⟨hctx, t, ht, hon.1, hon.2.1, hon.2.2, htype, hid, hr⟩
    | some r =>
      have hn := ctxUsersetNode_eq_some.mpr ⟨hon, r, hr, rfl⟩
      exact .inr ⟨_, ⟨hctx, t, ht, hn⟩, (takesIn_of_some (t := ofContext t) hr).mp hin⟩
  · rintro (⟨hctx, t, ht, hrel, htype, hobj, hut, hid, hr⟩ | ⟨n', ⟨hctx, t, ht, hn⟩, hX⟩)
    · exact ⟨hctx, t, ht, ⟨hrel, htype, hobj⟩, passes_ofContext,
        (takesIn_of_none (t := ofContext t) hr).mpr ⟨hut, hid⟩⟩
    · obtain ⟨hon, r, hr, rfl⟩ := ctxUsersetNode_eq_some.mp hn
      exact ⟨hctx, t, ht, hon, passes_ofContext, (takesIn_of_some (t := ofContext t) hr).mpr hX⟩

/-- **A leaf means what its rule does**, over tuples without the object wildcard. -/
theorem leaf_means_iff (hw : ∀ t ∈ env.tuples, t.objectId ≠ wildcard) (hx : env.exclude = none)
    {X : Set Question} {q : Question} {l : Leaf} :
    l.Means env X q ↔ RuleHolds env X q l.body := by
  cases l with
  | this =>
    show (∃ t ∈ tupleSet env, _) ↔ DirectHolds env X q
    rw [exists_tupleSet, stored_iff hw hx, contextual_iff]
    simp only [DirectHolds, PgAuthz.Userset, or_and_right, exists_or]
    rw [or_assoc]
    exact or_congr Iff.rfl or_left_comm
  | computedUserset r => exact Iff.rfl
  | tupleToUserset tupleset computed =>
    show (∃ t ∈ tupleSet env, _) ↔ ∃ n', Linked env _ _ _ _ n' ∧ _
    rw [exists_tupleSet]
    simp only [Linked, or_and_right, exists_or]
    refine or_congr ⟨?_, ?_⟩ ⟨?_, ?_⟩
    · rintro ⟨t, ht, hon, hpass, hr, hX⟩
      exact ⟨_, ⟨t, ht, linkNode_eq_some.mpr ⟨hon, hr, rfl⟩, hpass⟩, hX⟩
    · rintro ⟨n', ⟨t, ht, hn, hpass⟩, hX⟩
      obtain ⟨hon, hr, rfl⟩ := linkNode_eq_some.mp hn
      exact ⟨t, ht, hon, hpass, hr, hX⟩
    · rintro ⟨hctx, t, ht, hon, -, hr, hX⟩
      exact ⟨_, ⟨hctx, t, ht, ctxLinkNode_eq_some.mpr ⟨hon, hr, rfl⟩⟩, hX⟩
    · rintro ⟨n', ⟨hctx, t, ht, hn⟩, hX⟩
      obtain ⟨hon, hr, rfl⟩ := ctxLinkNode_eq_some.mp hn
      exact ⟨hctx, t, ht, hon, passes_ofContext, hr, hX⟩

section Imported

variable {s : StoreModel} {m : AuthorizationModel}

theorem Checks.noWildcard (hc : Checks s env) (hr : Represents s m) :
    ∀ t ∈ env.tuples, t.objectId ≠ wildcard := fun t ht hw => by
  obtain ⟨row, hrow, -, -, -, hallow⟩ := (hc.tuples t ht).wildcard hw
  rw [hr.noWildcard row hrow] at hallow
  cases hallow

theorem Checks.mem_orderedRules (hc : Checks s env) {T r : ℕ} (ρ : Rule) :
    ρ ∈ orderedRules env.rules T r ↔ ρ ∈ s.rulesAt T r := by
  rw [PgAuthz.mem_orderedRules, hc.rules, StoreModel.rulesAt, List.mem_filter, decide_eq_true_iff]

/-- **The groups of a relation mean its definition**, over any sets of questions. -/
theorem groups_iff_means (hc : Checks s env) (hr : Represents s m) (X N : Set Question)
    (q : Question) : (∃ g, GroupHolds env X N q g) ↔ m.Means env X N q := by
  have hleaf : ∀ added l, Terms env X N q added l.body ↔ AuthorizationModel.Sides env X N q added l :=
    fun added l => by
      cases added <;> exact (leaf_means_iff (hc.noWildcard hr) hc.exclude).symm
  have hdefined : ∀ {u}, m.Defines q.node.objectType q.node.relation u →
      ((∃ g, GroupHolds env X N q g) ↔
        u.Means (AuthorizationModel.Sides env X N q) true) := fun {u} hu => by
    obtain ⟨_, htrans⟩ := hr.defined _ _ u hu
    have hgrouped := htrans.grouped.congr hc.mem_orderedRules
    rw [exists_congr fun g => groupHolds_iff hgrouped]
    refine (someGroupMeans_congr hc.mem_orderedRules).trans ((htrans.means _).trans ?_)
    exact Userset.means_congr fun x _ => hleaf x.1 x.2
  by_cases hu : ∃ u, m.Defines q.node.objectType q.node.relation u
  · obtain ⟨u, hu⟩ := hu
    rw [hdefined hu]
    exact ⟨fun h => ⟨u, hu, h⟩, fun ⟨u', hu', h⟩ => (hdefined hu).mp ((hdefined hu').mpr h)⟩
  · refine iff_of_false ?_ fun ⟨u, hu', _⟩ => hu ⟨u, hu'⟩
    rintro ⟨g, first, hfirst, -⟩
    have hmem := (hc.mem_orderedRules first).mp (mem_groupRules (List.mem_of_mem_head? hfirst))
    rw [hr.undefined _ _ fun u hu' => hu ⟨u, hu'⟩] at hmem
    exact absurd hmem List.not_mem_nil

/-- What holds in a store is what its definitions make hold. -/
theorem holds_iff_leastModel (hc : Checks s env) (hr : Represents s m) (hs : Stratified env)
    (L : (m.system env).Stratification) (q : Question) :
    Holds hs q ↔ q ∈ (m.system env).leastModel L := by
  have hstep : ∀ X N, (ruleSystem env).step X N = (m.system env).step X N := fun X N =>
    Set.ext fun q => groups_iff_means hc hr X N q
  have hfix := (RuleSystem.leastModel_eq_lfp (stratification hs)).trans
    (RuleSystem.masked_congr_step hstep _ _)
  exact Set.ext_iff.mp (RuleSystem.eq_leastModel L hfix) q

end Imported

/-- **An import raises and changes nothing, or keeps every meaning.** In the store it leaves, over any
tuples that may be written, the groups of a relation hold exactly when its definition does, and a check
finds what the least model of the definitions says. -/
theorem import_preserves_meaning (s : StoreModel) (m : AuthorizationModel) :
    (∃ e, call s m = (s, .error e)) ∨
      ∃ s' summary, call s m = (s', .ok summary) ∧ ∀ env, Checks s' env →
        (∀ X N q, (∃ g, GroupHolds env X N q g) ↔ m.Means env X N q) ∧
        ∀ (hs : Stratified env) (L : (m.system env).Stratification) (q : Question),
          Holds hs q ↔ q ∈ (m.system env).leastModel L := by
  cases himport : importOpenfgaModel s m with
  | error e => exact .inl ⟨e, by rw [call, himport]⟩
  | ok out =>
    obtain ⟨s', summary⟩ := out
    have hr := represents_of_import himport
    refine .inr ⟨s', summary, by rw [call, himport], fun env hc => ⟨?_, ?_⟩⟩
    · exact groups_iff_means hc hr
    · exact holds_iff_leastModel hc hr

end PgAuthz.OpenFga
