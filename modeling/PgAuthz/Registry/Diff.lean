import Mathlib.Data.String.Basic
import Mathlib.Logic.Embedding.Basic
import PgAuthz.Keyed.Diff
import PgAuthz.Registry.Convergence

/-!
# The difference of two models

`DiffModels` lists what changes from one model to another, section by section, in the shape of a plan. It puts the
items of a section into a map under a text that is made of some of their fields, and compares the two maps key by
key. What an item is, in the engine, are the columns of a unique index: a text may stand for several items of one
model, and then the last of them hides the others.

The text of a facet leaves out the condition that the facet requires, so an open facet and one that requires a
condition have one key. The other texts name every field, but between separators that a name may hold itself; and the
description of a condition is the empty text where there is none.

## Main definitions

* `Change`, `diffModels`: the changes
* `Exact`: no changes exactly between models with the same items, and one change, the right one, for each item that
  is missing or has changed
* `Distinguished`: the texts tell the items of both models apart

## Main results

* `diffModels_exact_iff`: the difference of two exported models is exact exactly if the texts tell their items apart
-/

namespace PgAuthz

namespace Registry

open Keyed

variable {Text J : Type}

/-! ## The changes -/

/-- The sections of a model. -/
inductive ModelSection
  | types
  | relations
  | rules
  | typeRestrictions
  | conditions
  | gates
  | grantRules
  | relationConstraints
deriving DecidableEq, Repr

/-- A change, in the shape of the changes of a plan. -/
structure Change where
  op : Diff.Op
  sectionName : ModelSection
  item : String
deriving DecidableEq, Repr

section Keys

variable (text : Text ↪ String)

/-- The key of a type. -/
def TypeRow.item (t : TypeRow Text) : String := text t.name

/-- The key of a relation. -/
def RelationRow.item (r : RelationRow Text J) : String := text r.name

/-- What a rule resolves its relation by. -/
def RuleForm.source : RuleForm Text → String
  | direct => "direct"
  | computed c => text c
  | ttu t c => text c ++ " from " ++ text t

/-- The operator of a group, as the export writes it. -/
def GroupOp.name : GroupOp → String
  | or => "or"
  | intersection => "intersection"
  | exclusion => "exclusion"

/-- The key of a rule. -/
def Rule.item (r : Rule Text) : String :=
  text r.objectType ++ "." ++ text r.relation ++ " ← " ++ r.form.source text ++
    (if r.negated then " (but not)" else "") ++
    (if r.groupId ≠ 0 ∨ r.groupOp ≠ .or then
      " [group " ++ toString r.groupId ++ " " ++ r.groupOp.name ++ "]" else "")

/-- The key of a facet.  The condition is not in it. -/
def Restriction.item (x : Restriction Text) : String :=
  text x.objectType ++ "." ++ text x.relation ++ " accepts " ++ text x.allowedUserType ++
    (match x.allowedUserRelation with | some relation => "#" ++ text relation | none => "") ++
    (if x.allowWildcard then ":*" else "")

/-- The key of a condition. -/
def ConditionRow.item (c : ConditionRow Text J) : String := text c.name

/-- The key of a gate. -/
def GateRow.item (g : GateRow Text J) : String :=
  text g.objectType ++ "." ++ text g.relation ++ " / " ++ text g.name

/-- The key of a grant rule. -/
def GrantRule.item (g : GrantRule Text) : String := text g.objectType ++ "." ++ text g.relation

/-- The key of a relation constraint. -/
def RelationConstraint.item (c : RelationConstraint Text) : String := text c.objectType ++ "." ++ text c.relation

variable (Text J) in
/-- What is compared of a condition.  The description is a text, empty where there is none. -/
structure ConditionBody where
  name : Text
  expression : Text
  lang : Lang
  requiredContext : Option J
  timeSource : TimeSource
  description : String
deriving DecidableEq

/-- A condition as the models carry it. -/
def ConditionRow.body (c : ConditionRow Text J) : ConditionBody Text J :=
  ⟨c.name, c.expression, c.lang, c.requiredContext, c.timeSource, (c.description.map text).getD ""⟩

end Keys

/-- The changes of one section, under its name. -/
def sectionChanges (sectionName : ModelSection) (changes : List (String × Diff.Op)) : List Change :=
  changes.map fun c => ⟨c.2, sectionName, c.1⟩

section Changes

variable [LinearOrder Text] [DecidableEq J] (text : Text ↪ String) (a b : Definition Text J)

/-- What changes in a section. -/
def changesIn : ModelSection → List (String × Diff.Op)
  | .types => Diff.diff (TypeRow.item text) id a.types b.types
  | .relations => Diff.diff (RelationRow.item text) id a.relations b.relations
  | .rules => Diff.diff (Rule.item text) id a.rules b.rules
  | .typeRestrictions => Diff.diff (Restriction.item text) id a.restrictions b.restrictions
  | .conditions => Diff.diff (ConditionRow.item text) (ConditionRow.body text) a.conditions b.conditions
  | .gates => Diff.diff (GateRow.item text) id a.gates b.gates
  | .grantRules => Diff.diff (GrantRule.item text) id a.grantRules b.grantRules
  | .relationConstraints => Diff.diff (RelationConstraint.item text) id a.constraints b.constraints

/-- The sections, in the order in which they are compared. -/
def modelSections : List ModelSection :=
  [.types, .relations, .rules, .typeRestrictions, .conditions, .gates, .grantRules, .relationConstraints]

/-- `DiffModels`: what changes from the first model to the second. -/
def diffModels : List Change :=
  modelSections.flatMap fun sectionName => sectionChanges sectionName (changesIn text a b sectionName)

end Changes

/-- The operations that are reported for an item. -/
def opsOf (changes : List Change) (sectionName : ModelSection) (item : String) : List Diff.Op :=
  (changes.filter fun c => c.sectionName = sectionName ∧ c.item = item).map Change.op

@[simp]
theorem opsOf_append (changes changes' : List Change) (sectionName : ModelSection) (item : String) :
    opsOf (changes ++ changes') sectionName item =
      opsOf changes sectionName item ++ opsOf changes' sectionName item := by
  simp [opsOf]

@[simp]
theorem opsOf_sectionChanges_self (sectionName : ModelSection) (changes : List (String × Diff.Op)) (item : String) :
    opsOf (sectionChanges sectionName changes) sectionName item = Diff.opsAt changes item := by
  simp [opsOf, sectionChanges, Diff.opsAt, List.filter_map, Function.comp_def]

theorem opsOf_sectionChanges_of_ne {sectionName other : ModelSection} (h : sectionName ≠ other)
    (changes : List (String × Diff.Op)) (item : String) :
    opsOf (sectionChanges sectionName changes) other item = [] := by
  simp [opsOf, sectionChanges, List.filter_map, Function.comp_def, h]

/-! ## What an exact difference is -/

/-- What a rule is told by: its relation, its form, its group and whether it is negated. -/
def Rule.ident (r : Rule Text) : Text × Text × RuleForm Text × ℤ × GroupOp × Bool :=
  (r.objectType, r.relation, r.form, r.groupId, r.groupOp, r.negated)

/-- What a facet is told by: its relation and the subjects that it takes. -/
def Restriction.ident (x : Restriction Text) : Text × Text × Text × Option Text × Bool :=
  (x.objectType, x.relation, x.allowedUserType, x.allowedUserRelation, x.allowWildcard)

/-- What a gate is told by. -/
def GateRow.ident (g : GateRow Text J) : Text × Text × Text := (g.objectType, g.relation, g.name)

/-- What a grant rule is told by. -/
def GrantRule.ident (g : GrantRule Text) : Text × Text := (g.objectType, g.relation)

/-- What a relation constraint is told by. -/
def RelationConstraint.ident (c : RelationConstraint Text) : Text × Text := (c.objectType, c.relation)

section

variable {text : Text ↪ String}

theorem Rule.item_of_ident (r r' : Rule Text) (h : r.ident = r'.ident) : r.item text = r'.item text := by
  simp only [ident, Prod.mk.injEq] at h
  obtain ⟨htype, hrelation, hform, hgroup, hop, hnegated⟩ := h
  simp only [item, htype, hrelation, hform, hgroup, hop, hnegated]

theorem Restriction.item_of_ident (x x' : Restriction Text) (h : x.ident = x'.ident) : x.item text = x'.item text := by
  simp only [ident, Prod.mk.injEq] at h
  obtain ⟨htype, hrelation, huser, huserset, hwildcard⟩ := h
  simp only [item, htype, hrelation, huser, huserset, hwildcard]

theorem GateRow.item_of_ident (g g' : GateRow Text J) (h : g.ident = g'.ident) : g.item text = g'.item text := by
  simp only [ident, Prod.mk.injEq] at h
  obtain ⟨htype, hrelation, hname⟩ := h
  simp only [item, htype, hrelation, hname]

theorem GrantRule.item_of_ident (g g' : GrantRule Text) (h : g.ident = g'.ident) : g.item text = g'.item text := by
  simp only [ident, Prod.mk.injEq] at h
  obtain ⟨htype, hrelation⟩ := h
  simp only [item, htype, hrelation]

theorem RelationConstraint.item_of_ident (c c' : RelationConstraint Text) (h : c.ident = c'.ident) :
    c.item text = c'.item text := by
  simp only [ident, Prod.mk.injEq] at h
  obtain ⟨htype, hrelation⟩ := h
  simp only [item, htype, hrelation]

end

/-- The two models have the same items in every section. -/
structure SameItems (a b : Definition Text J) : Prop where
  types : ∀ t, t ∈ a.types ↔ t ∈ b.types
  relations : ∀ r, r ∈ a.relations ↔ r ∈ b.relations
  rules : ∀ r, r ∈ a.rules ↔ r ∈ b.rules
  restrictions : ∀ x, x ∈ a.restrictions ↔ x ∈ b.restrictions
  conditions : ∀ c, c ∈ a.conditions ↔ c ∈ b.conditions
  gates : ∀ g, g ∈ a.gates ↔ g ∈ b.gates
  grantRules : ∀ g, g ∈ a.grantRules ↔ g ∈ b.grantRules
  constraints : ∀ c, c ∈ a.constraints ↔ c ∈ b.constraints

section Exactness

variable [LinearOrder Text] [DecidableEq J] (text : Text ↪ String) (a b : Definition Text J)

/-- In every section, each item that is missing on one side or has changed has one change. -/
structure Covered : Prop where
  types : Diff.Complete (opsOf (diffModels text a b) .types) (TypeRow.item text) TypeRow.name a.types b.types
  relations : Diff.Complete (opsOf (diffModels text a b) .relations) (RelationRow.item text) RelationRow.name
    a.relations b.relations
  rules : Diff.Complete (opsOf (diffModels text a b) .rules) (Rule.item text) Rule.ident a.rules b.rules
  restrictions : Diff.Complete (opsOf (diffModels text a b) .typeRestrictions) (Restriction.item text)
    Restriction.ident a.restrictions b.restrictions
  conditions : Diff.Complete (opsOf (diffModels text a b) .conditions) (ConditionRow.item text) ConditionRow.name
    a.conditions b.conditions
  gates : Diff.Complete (opsOf (diffModels text a b) .gates) (GateRow.item text) GateRow.ident a.gates b.gates
  grantRules : Diff.Complete (opsOf (diffModels text a b) .grantRules) (GrantRule.item text) GrantRule.ident
    a.grantRules b.grantRules
  constraints : Diff.Complete (opsOf (diffModels text a b) .relationConstraints) (RelationConstraint.item text)
    RelationConstraint.ident a.constraints b.constraints

/-- **The difference is exact**: it is empty exactly between models with the same items, and covers each item that is
missing on one side or has changed with one change, the right one. -/
structure Exact : Prop where
  empty_iff : diffModels text a b = [] ↔ SameItems a b
  covered : Covered text a b

/-- **The texts tell the items of the two models apart**, in each section where a text may stand for several. -/
structure Distinguished : Prop where
  rules : Diff.Separated (Rule.item text) id Rule.ident a.rules b.rules
  restrictions : Diff.Separated (Restriction.item text) id Restriction.ident a.restrictions b.restrictions
  conditions : Diff.Separated (ConditionRow.item text) (ConditionRow.body text) ConditionRow.name
    a.conditions b.conditions
  gates : Diff.Separated (GateRow.item text) id GateRow.ident a.gates b.gates
  grantRules : Diff.Separated (GrantRule.item text) id GrantRule.ident a.grantRules b.grantRules
  constraints : Diff.Separated (RelationConstraint.item text) id RelationConstraint.ident a.constraints b.constraints

end Exactness

/-! ## The sections of a difference -/

section Sections

variable [LinearOrder Text] [DecidableEq J] {text : Text ↪ String} {a b : Definition Text J}

/-- The changes of a section are under its name, and no others are. -/
theorem opsOf_diffModels (sectionName : ModelSection) :
    opsOf (diffModels text a b) sectionName = Diff.opsAt (changesIn text a b sectionName) := by
  funext item
  cases sectionName <;> simp [diffModels, modelSections, opsOf_sectionChanges_of_ne]

/-- A model does not differ from itself. -/
theorem diffModels_self : diffModels text a a = [] := by
  simp [diffModels, modelSections, sectionChanges, changesIn, Diff.diff_self]

/-- Models without changes between them have the same items, if each of their items is covered. -/
theorem Covered.sameItems (h : Covered text a b) (hnil : diffModels text a b = []) : SameItems a b := by
  have hops : ∀ sectionName item, opsOf (diffModels text a b) sectionName item = [] := by
    intro sectionName item
    rw [hnil]
    rfl
  exact ⟨Diff.mem_iff_of_complete h.types (hops _), Diff.mem_iff_of_complete h.relations (hops _),
    Diff.mem_iff_of_complete h.rules (hops _), Diff.mem_iff_of_complete h.restrictions (hops _),
    Diff.mem_iff_of_complete h.conditions (hops _), Diff.mem_iff_of_complete h.gates (hops _),
    Diff.mem_iff_of_complete h.grantRules (hops _), Diff.mem_iff_of_complete h.constraints (hops _)⟩

end Sections

/-! ## The difference of exported models -/

section Exported

variable [LinearOrder Text] {text : Text ↪ String} {s s' : Store Text J}

theorem exportModel_types_sorted (s : Store Text J) :
    (exportModel s).types.Pairwise fun t t' => t.name < t'.name := by
  change (s.types.rows.map TypeRow.exported).Pairwise _
  rw [List.pairwise_map]
  exact s.types.sorted

/-- Exports with the same items are the same. -/
theorem SameItems.eq (h : SameItems (exportModel s) (exportModel s')) : exportModel s = exportModel s' := by
  have htypes := Table.eq_of_sorted (exportModel_types_sorted s) (exportModel_types_sorted s') h.types
  have hrelations := Table.eq_of_sorted s.relations.sorted s'.relations.sorted h.relations
  have hrules := Table.eq_of_sorted s.rules.sorted s'.rules.sorted h.rules
  have hrestrictions := Table.eq_of_sorted s.restrictions.sorted s'.restrictions.sorted h.restrictions
  have hconditions := Table.eq_of_sorted s.conditions.sorted s'.conditions.sorted h.conditions
  have hgates := Table.eq_of_sorted s.gates.sorted s'.gates.sorted h.gates
  have hgrantRules := Table.eq_of_sorted s.grantRules.sorted s'.grantRules.sorted h.grantRules
  have hconstraints := Table.eq_of_sorted s.constraints.sorted s'.constraints.sorted h.constraints
  exact Definition.mk.injEq .. ▸
    ⟨htypes, hrelations, hrules, hrestrictions, hconditions, hgates, hgrantRules, hconstraints⟩

theorem type_eq_of_item {t t' : TypeRow Text} (ht : t ∈ (exportModel s).types) (ht' : t' ∈ (exportModel s).types)
    (h : t.item text = t'.item text) : t = t' :=
  Table.eq_of_key (t := ⟨_, exportModel_types_sorted s⟩) ht ht' (text.injective h)

theorem relation_eq_of_item {r r' : RelationRow Text J} (hr : r ∈ (exportModel s).relations)
    (hr' : r' ∈ (exportModel s).relations) (h : r.item text = r'.item text) : r = r' :=
  Table.eq_of_key (t := s.relations) hr hr' (text.injective h)

/-- The name of a type is enough to tell it. -/
theorem types_separated : Diff.Separated (TypeRow.item text) id TypeRow.name (exportModel s).types
    (exportModel s').types :=
  Diff.separated_of_unique (fun _ _ h => text.injective h) (fun _ ht _ ht' => type_eq_of_item ht ht')
    (fun _ ht _ ht' => type_eq_of_item ht ht') fun _ _ h => h

/-- The name of a relation is enough to tell it. -/
theorem relations_separated : Diff.Separated (RelationRow.item text) id RelationRow.name (exportModel s).relations
    (exportModel s').relations :=
  Diff.separated_of_unique (fun _ _ h => text.injective h) (fun _ hr _ hr' => relation_eq_of_item hr hr')
    (fun _ hr _ hr' => relation_eq_of_item hr hr') fun _ _ h => h

variable [DecidableEq J]

/-- Every item is covered exactly if the texts tell the items apart. -/
theorem covered_iff : Covered text (exportModel s) (exportModel s') ↔
    Distinguished text (exportModel s) (exportModel s') := by
  have hops := @opsOf_diffModels _ _ _ _ text (exportModel s) (exportModel s')
  constructor
  · intro h
    exact ⟨(Diff.complete_iff Rule.item_of_ident).mp (hops .rules ▸ h.rules),
      (Diff.complete_iff Restriction.item_of_ident).mp (hops .typeRestrictions ▸ h.restrictions),
      (Diff.complete_iff fun _ _ hname => congrArg text hname).mp (hops .conditions ▸ h.conditions),
      (Diff.complete_iff GateRow.item_of_ident).mp (hops .gates ▸ h.gates),
      (Diff.complete_iff GrantRule.item_of_ident).mp (hops .grantRules ▸ h.grantRules),
      (Diff.complete_iff RelationConstraint.item_of_ident).mp (hops .relationConstraints ▸ h.constraints)⟩
  · intro h
    refine ⟨?_, ?_, ?_, ?_, ?_, ?_, ?_, ?_⟩
    · rw [hops]
      exact (Diff.complete_iff fun _ _ hname => congrArg text hname).mpr types_separated
    · rw [hops]
      exact (Diff.complete_iff fun _ _ hname => congrArg text hname).mpr relations_separated
    · rw [hops]
      exact (Diff.complete_iff Rule.item_of_ident).mpr h.rules
    · rw [hops]
      exact (Diff.complete_iff Restriction.item_of_ident).mpr h.restrictions
    · rw [hops]
      exact (Diff.complete_iff fun _ _ hname => congrArg text hname).mpr h.conditions
    · rw [hops]
      exact (Diff.complete_iff GateRow.item_of_ident).mpr h.gates
    · rw [hops]
      exact (Diff.complete_iff GrantRule.item_of_ident).mpr h.grantRules
    · rw [hops]
      exact (Diff.complete_iff RelationConstraint.item_of_ident).mpr h.constraints

/-- **The difference of two exported models is exact exactly if the texts tell their items apart.** -/
theorem diffModels_exact_iff (text : Text ↪ String) (s s' : Store Text J) :
    Exact text (exportModel s) (exportModel s') ↔ Distinguished text (exportModel s) (exportModel s') := by
  constructor
  · intro h
    exact covered_iff.mp h.covered
  · intro h
    have hcovered := covered_iff.mpr h
    refine ⟨⟨hcovered.sameItems, fun hsame => ?_⟩, hcovered⟩
    rw [hsame.eq]
    exact diffModels_self

end Exported

/-! ## A facet behind another -/

/-- Documents whose viewers are users, under each of some conditions, or none. -/
def facetStore (conditions : List (Option String)) : Except (Refusal String) (Store String Unit) := do
  let s ← documentStore ["viewer"]
  let s ← modelRegisterType s ⟨"user", none, none, [], 4⟩
  let s ← createCondition lenientDatabase s ⟨"office", "true", .sql, none, .caller, none⟩
  conditions.foldlM (fun s c => modelAddTypeRestriction s ⟨"document", "viewer", "user", none, false, c⟩) s

/-- **A facet that is hidden**: the second model no longer takes users without a condition, and no change is
reported. -/
theorem open_facet_is_hidden : ∃ s s', facetStore [none, some "office"] = .ok s ∧
    facetStore [some "office"] = .ok s' ∧
    diffModels (Function.Embedding.refl String) (exportModel s) (exportModel s') = [] ∧
    ¬ Exact (Function.Embedding.refl String) (exportModel s) (exportModel s') := by
  refine ⟨_, _, rfl, rfl, by decide +kernel, fun h => ?_⟩
  have hsame := h.empty_iff.mp (by decide +kernel)
  have hmem := (hsame.restrictions ⟨"document", "viewer", "user", none, false, none⟩).mp (by decide +kernel)
  revert hmem
  decide +kernel

end Registry

end PgAuthz
