import PgAuthz.Audit.SnapshotCheck
import PgAuthz.Audit.Trail

/-!
# Serial histories of a store

Transactions that edit the tuples, the rules and the conditions of a store one after the other, each
at the instant it starts. Every changed row is recorded in the audit table of its kind, and the
three snapshots of a past instant are rebuilt from these tables.

## Main definitions

* `RuleKey`, `ModelAuditRow`, `ConditionRow`, `ConditionAuditRow`: the rows of models, conditions
  and their audit tables
* `StoreOp`, `applyOp`: one changed row of a transaction
* `HistoryState`, `HistoryEvent`, `historyStep`: histories
* `buildModelSnapshot`, `buildConditionSnapshot`: the snapshots of the rules and the conditions

## Main results

* `historyInv_step`: every step keeps the three logs faithful and the operators of groups consistent
* `logs_of_later`: later transactions only append events of later instants
* `HistoryInv.mem_tuples`, `HistoryInv.mem_rules`, `HistoryInv.mem_conditions`: the snapshots of an
  instant are the tables at this instant
-/

namespace PgAuthz

open Feed Transition

/-! ## The audited tables -/

/-- The columns of `idx_models_unique`. -/
structure RuleKey where
  objectType : ℕ
  relation : ℕ
  body : RuleBody
  groupId : ℤ
  negated : Bool
deriving DecidableEq, Repr

/-- The business key of a rule. -/
def Rule.ruleKey (ρ : Rule) : RuleKey :=
  ⟨ρ.objectType, ρ.relation, ρ.body, ρ.groupId, ρ.negated⟩

/-- A row of `authz.models_audit`. -/
structure ModelAuditRow extends Rule where
  seq : ℤ
  action : AuditAction
  performedAt : ℤ
  performedBy : String
deriving DecidableEq, Repr

/-- A row of `authz.conditions` with its name and description. -/
structure ConditionRow extends Condition where
  name : String
  description : Option String
deriving DecidableEq, Repr

/-- A row of `authz.conditions_audit`. -/
structure ConditionAuditRow extends ConditionRow where
  seq : ℤ
  action : AuditAction
  performedAt : ℤ
  performedBy : String
deriving DecidableEq, Repr

/-- How the events of a tuple are read. -/
def tupleEvents : EventView AuditRow Tuple :=
  ⟨AuditRow.toTuple, fun r => r.action = .insert, AuditRow.performedAt, AuditRow.seq⟩

/-- How the events of a rule are read. -/
def ruleEvents : EventView ModelAuditRow Rule :=
  ⟨ModelAuditRow.toRule, fun r => r.action = .insert, ModelAuditRow.performedAt, ModelAuditRow.seq⟩

/-- How the events of a condition are read. -/
def conditionEvents : EventView ConditionAuditRow ConditionRow :=
  ⟨ConditionAuditRow.toConditionRow, fun r => r.action = .insert, ConditionAuditRow.performedAt,
    ConditionAuditRow.seq⟩

/-- The trigger `_audit_model` records an inserted or removed rule. -/
def auditModel (start : ℤ) (performedBy : String) (inserted : Bool) (ρ : Rule) (seq : ℤ) :
    ModelAuditRow :=
  { ρ with
    seq := seq, action := if inserted then .insert else .delete, performedAt := start,
    performedBy := performedBy }

/-- The trigger `_audit_condition` records an inserted or removed condition. -/
def auditCondition (start : ℤ) (performedBy : String) (inserted : Bool) (c : ConditionRow)
    (seq : ℤ) : ConditionAuditRow :=
  { c with
    seq := seq, action := if inserted then .insert else .delete, performedAt := start,
    performedBy := performedBy }

/-- `_build_model_snapshot`. -/
def buildModelSnapshot (log : List ModelAuditRow) (atTime : ℤ) : List Rule :=
  ruleEvents.asOf Rule.ruleKey atTime log

/-- `_build_condition_snapshot`. -/
def buildConditionSnapshot (log : List ConditionAuditRow) (atTime : ℤ) : List ConditionRow :=
  conditionEvents.asOf (fun c => c.id) atTime log

/-! ## Transactions -/

/-- The `btrim` of a condition's expression. -/
def btrim (expression : String) : String :=
  let blank (c : Char) : Bool := c ∈ [' ', '\t', '\r', '\n']
  String.ofList ((expression.toList.dropWhile blank).reverse.dropWhile blank).reverse

/-- One row that a transaction edits: a tuple, a rule by `model_add_rule` or the removals of the
model, a condition by `create_condition` or `delete_condition`. -/
inductive StoreOp
  | tuple (op : TupleOp)
  | addRule (ρ : Rule)
  | removeRule (key : RuleKey)
  | createCondition (name expression : String) (lang : CondLang)
      (requiredRequest requiredStored : List String) (timeSource : TimeSource)
      (description : Option String)
  | deleteCondition (name : String)

/-- The clock, the three audited tables and the sequence of condition ids. -/
structure HistoryState where
  clock : ℤ
  tuples : Audited AuditRow Tuple
  models : Audited ModelAuditRow Rule
  conditions : Audited ConditionAuditRow ConditionRow
  nextConditionId : ℕ

/-- A store before its first transaction. -/
def HistoryState.init (clock : ℤ) : HistoryState := ⟨clock, .empty, .empty, .empty, 1⟩

/-- A condition as `create_condition` leaves it: `old` is the row of the same name. -/
def updatedCondition (old : ConditionRow) (expression : String) (lang : CondLang)
    (requiredRequest requiredStored : List String) (timeSource : TimeSource)
    (description : Option String) : ConditionRow :=
  { old with
    expression := btrim expression, lang := lang, requiredRequest := requiredRequest,
    requiredStored := requiredStored, timeSource := timeSource,
    description := match description with
      | none => old.description
      | some d => if d = "" then none else some d }

/-- One row of a transaction at the instant of the clock, unless it raises. The validations that
refuse further writes are left out. -/
def applyOp (store : ℕ) (performedBy : String) (s : HistoryState) : StoreOp → Option HistoryState
  | .tuple op =>
    if op.key.storeId = store then
      match op.effect s.clock s.clock (s.tuples.current (Tuple.rowKey store) op.key) with
      | none => some s
      | some (_, new) => some { s with
          tuples := s.tuples.replace (Tuple.rowKey store)
            (AuditRow.event store s.clock performedBy) op.key new }
    else none
  | .addRule ρ =>
    -- all rules of a group use the same operator
    if s.models.rows.any fun ρ' => ρ'.objectType = ρ.objectType ∧ ρ'.relation = ρ.relation ∧
        ρ'.groupId = ρ.groupId ∧ ρ'.groupOp ≠ ρ.groupOp then none
    else
      -- an existing rule is updated in place, which is recorded as well
      some { s with
        models := s.models.replace Rule.ruleKey (auditModel s.clock performedBy) ρ.ruleKey
          (some ((s.models.current Rule.ruleKey ρ.ruleKey).getD ρ)) }
  | .removeRule key =>
    match s.models.current Rule.ruleKey key with
    | none => some s
    | some _ => some { s with
        models := s.models.replace Rule.ruleKey (auditModel s.clock performedBy) key none }
  | .createCondition name expression lang requiredRequest requiredStored timeSource description =>
    -- the sequence is drawn before the conflict on the name is found
    let next := { s with nextConditionId := s.nextConditionId + 1 }
    let upsert (c : ConditionRow) : HistoryState := { next with
      conditions := s.conditions.replace (fun c => c.id) (auditCondition s.clock performedBy) c.id
        (some c) }
    match s.conditions.rows.find? fun c => c.name = name with
    | none => some <| upsert
        { id := s.nextConditionId, expression := btrim expression, lang := lang,
          requiredRequest := requiredRequest, requiredStored := requiredStored,
          timeSource := timeSource, name := name,
          description := description.bind fun d => if d = "" then none else some d }
    | some old =>
      let new := updatedCondition old expression lang requiredRequest requiredStored timeSource
        description
      if new = old then some next else some (upsert new)
  | .deleteCondition name =>
    match s.conditions.rows.find? fun c => c.name = name with
    | none => some s
    | some old => some { s with
        conditions := s.conditions.replace (fun c => c.id) (auditCondition s.clock performedBy)
          old.id none }

/-- What can happen next: time passes, or a transaction edits rows and commits. -/
inductive HistoryEvent
  | tick (d : ℕ)
  | transact (ops : List StoreOp) (performedBy : String)

/-- The rows of a transaction, one after the other. -/
def applyOps (store : ℕ) (performedBy : String) : HistoryState → List StoreOp → Option HistoryState
  | s, [] => some s
  | s, op :: ops => (applyOp store performedBy s op).bind fun s' => applyOps store performedBy s' ops

/-- The next state; a transaction that raises leaves no trace and is no step. -/
def historyStep (store : ℕ) (s : HistoryState) : HistoryEvent → Option HistoryState
  | .tick d => some { s with clock := s.clock + d }
  | .transact ops performedBy => applyOps store performedBy s ops

/-! ## What a row of a transaction can do -/

theorem records_tuple (store : ℕ) (start : ℤ) (performedBy : String) :
    Records tupleEvents start (AuditRow.event store start performedBy) where
  row _ _ _ := rfl
  inserted ins _ _ := by cases ins <;> rfl
  performedAt _ _ _ := rfl
  seq _ _ _ := rfl

theorem records_rule (start : ℤ) (performedBy : String) :
    Records ruleEvents start (auditModel start performedBy) where
  row _ _ _ := rfl
  inserted ins _ _ := by cases ins <;> rfl
  performedAt _ _ _ := rfl
  seq _ _ _ := rfl

theorem records_condition (start : ℤ) (performedBy : String) :
    Records conditionEvents start (auditCondition start performedBy) where
  row _ _ _ := rfl
  inserted ins _ _ := by cases ins <;> rfl
  performedAt _ _ _ := rfl
  seq _ _ _ := rfl

/-- The rules of one group. -/
def Rule.SameGroup (ρ ρ' : Rule) : Prop :=
  ρ.objectType = ρ'.objectType ∧ ρ.relation = ρ'.relation ∧ ρ.groupId = ρ'.groupId

variable {store : ℕ} {performedBy : String} {s s' : HistoryState}

/-- A statement that changes a row reports the row as it was. -/
theorem effect_old {op : TupleOp} {now start : ℤ} {current old new : Option Tuple}
    (h : op.effect now start current = some (old, new)) : old = current := by
  cases op <;> cases current <;> simp only [TupleOp.effect] at h <;> try split at h
  all_goals cases h
  all_goals rfl

/-- **What a row of a transaction can do**: nothing but draw an id, or replace one row of one of the
three tables. A rule that is new has the operator of its group. -/
theorem applyOp_cases {op : StoreOp} (h : applyOp store performedBy s op = some s') :
    (∃ n, s' = { s with nextConditionId := n }) ∨
    (∃ (op' : TupleOp) (new : Option Tuple), op'.key.storeId = store ∧
      op'.effect s.clock s.clock (s.tuples.current (Tuple.rowKey store) op'.key) =
        some (s.tuples.current (Tuple.rowKey store) op'.key, new) ∧
      s' = { s with
        tuples := s.tuples.replace (Tuple.rowKey store)
          (AuditRow.event store s.clock performedBy) op'.key new }) ∨
    (∃ (key : RuleKey) (new : Option Rule),
      (s.models.current Rule.ruleKey key ≠ none ∨ new ≠ none) ∧
      (∀ ρ, new = some ρ → ρ.ruleKey = key ∧
        (ρ ∈ s.models.rows ∨ ∀ ρ' ∈ s.models.rows, ρ'.SameGroup ρ → ρ'.groupOp = ρ.groupOp)) ∧
      s' = { s with
        models := s.models.replace Rule.ruleKey (auditModel s.clock performedBy) key new }) ∨
    ∃ (id : ℕ) (new : Option ConditionRow) (n : ℕ),
      (s.conditions.current (fun c => c.id) id ≠ none ∨ new ≠ none) ∧
      (∀ c, new = some c → c.id = id) ∧
      s' = { s with
        conditions := s.conditions.replace (fun c => c.id) (auditCondition s.clock performedBy) id
          new
        nextConditionId := n } := by
  cases op with
  | tuple op' =>
    simp only [applyOp] at h
    split at h
    · rename_i hstore
      split at h
      · cases h
        exact .inl ⟨s.nextConditionId, rfl⟩
      · rename_i old new heff
        cases h
        refine .inr (.inl ⟨op', new, hstore, ?_, rfl⟩)
        rw [heff, effect_old heff]
    · cases h
  -- a rule that is there stays; a new one has the operator of its group
  | addRule ρ =>
    simp only [applyOp] at h
    split at h
    · cases h
    · rename_i hops
      cases h
      refine .inr (.inr (.inl ⟨ρ.ruleKey, _, .inr (by simp), ?_, rfl⟩))
      intro ρ' hρ'
      cases hcur : s.models.current Rule.ruleKey ρ.ruleKey with
      | none =>
        obtain rfl : ρ = ρ' := by simpa [hcur] using hρ'
        refine ⟨rfl, .inr fun ρ' hρ' hsame => ?_⟩
        by_contra hne
        refine hops (List.any_eq_true.mpr ⟨ρ', hρ', ?_⟩)
        simp [hsame.1, hsame.2.1, hsame.2.2, hne]
      | some o =>
        obtain rfl : o = ρ' := by simpa [hcur] using hρ'
        refine ⟨?_, .inl (List.mem_of_find?_eq_some hcur)⟩
        simpa using List.find?_some hcur
  | removeRule key =>
    simp only [applyOp] at h
    split at h
    · cases h
      exact .inl ⟨s.nextConditionId, rfl⟩
    · rename_i hcur
      cases h
      exact .inr (.inr (.inl ⟨key, none, .inl (by simp [hcur]), by simp, rfl⟩))
  -- the number is drawn also where the name is taken
  | createCondition name expression lang requiredRequest requiredStored timeSource description =>
    simp only [applyOp] at h
    split at h
    · cases h
      exact .inr (.inr (.inr ⟨_, some _, _, .inr (by simp), by simp, rfl⟩))
    · split at h
      · cases h
        exact .inl ⟨_, rfl⟩
      · cases h
        exact .inr (.inr (.inr ⟨_, some _, _, .inr (by simp), by simp, rfl⟩))
  | deleteCondition name =>
    simp only [applyOp] at h
    split at h
    · cases h
      exact .inl ⟨s.nextConditionId, rfl⟩
    · rename_i old hfind
      cases h
      refine .inr (.inr (.inr ⟨old.id, none, s.nextConditionId, .inl ?_, by simp, rfl⟩))
      intro hnone
      exact absurd (List.find?_eq_none.mp hnone old (List.mem_of_find?_eq_some hfind)) (by simp)

/-! ## The invariant -/

/-- **The invariant of histories**: the three logs are faithful, the log of the tuples is that of
the store, and the rules of a group have one operator. -/
structure HistoryInv (store : ℕ) (s : HistoryState) : Prop where
  tuples : s.tuples.Faithful tupleEvents (Tuple.rowKey store) s.clock
  models : s.models.Faithful ruleEvents Rule.ruleKey s.clock
  conditions : s.conditions.Faithful conditionEvents (fun c => c.id) s.clock
  storeId : ∀ r ∈ s.tuples.log, r.storeId = store
  ops : OpsAgree s.models.rows

theorem historyInv_init (store : ℕ) (clock : ℤ) : HistoryInv store (HistoryState.init clock) where
  tuples := Audited.faithful_empty
  models := Audited.faithful_empty
  conditions := Audited.faithful_empty
  storeId := by simp [HistoryState.init, Audited.empty]
  ops := by simp [HistoryState.init, Audited.empty, OpsAgree]

/-- A rule whose operator is that of its group keeps the operators consistent. -/
theorem OpsAgree.replace {A : Audited ModelAuditRow Rule} (h : OpsAgree A.rows)
    {event : Bool → Rule → ℤ → ModelAuditRow} {key : RuleKey} {new : Option Rule}
    (hnew : ∀ ρ, new = some ρ → ∀ ρ' ∈ A.rows, ρ'.SameGroup ρ → ρ'.groupOp = ρ.groupOp) :
    OpsAgree (A.replace Rule.ruleKey event key new).rows := by
  have hmem : ∀ ρ ∈ (A.replace Rule.ruleKey event key new).rows, ρ ∈ A.rows ∨ new = some ρ := by
    intro ρ hρ
    rcases List.mem_append.mp hρ with hρ | hρ
    · exact .inl (List.mem_of_mem_filter hρ)
    · exact .inr (Option.mem_toList.mp hρ)
  intro ρ hρ ρ' hρ' hT hr hg
  rcases hmem ρ hρ with hin | hin <;> rcases hmem ρ' hρ' with hin' | hin'
  · exact h ρ hin ρ' hin' hT hr hg
  · exact hnew ρ' hin' ρ hin ⟨hT, hr, hg⟩
  · exact (hnew ρ hin ρ' hin' ⟨hT.symm, hr.symm, hg.symm⟩).symm
  · rw [Option.some.inj (hin.symm.trans hin')]

/-- A row of a transaction keeps the invariant and the clock. -/
theorem HistoryInv.applyOp (h : HistoryInv store s) {op : StoreOp}
    (hs : applyOp store performedBy s op = some s') : HistoryInv store s' ∧ s'.clock = s.clock := by
  rcases applyOp_cases hs with ⟨n, rfl⟩ | ⟨op', new, hstore, heff, rfl⟩ |
    ⟨key, new, hsome, hnew, rfl⟩ | ⟨id, new, n, hsome, hnew, rfl⟩
  · exact ⟨⟨h.tuples, h.models, h.conditions, h.storeId, h.ops⟩, rfl⟩
  · subst hstore
    have hwf := effect_wellFormed (fun t ht => (h.tuples.current_eq_some.mp ht).2) heff 0 performedBy
    refine ⟨⟨?_, h.models, h.conditions, ?_, h.ops⟩, rfl⟩
    · exact h.tuples.replace (records_tuple _ _ _) hwf.2.2 hwf.2.1
    · intro r hr
      rcases List.mem_append.mp hr with hr | hr
      · exact h.storeId r hr
      · obtain ⟨ins, t, n, rfl⟩ := mem_recordChange hr
        rfl
  · refine ⟨⟨h.tuples, ?_, h.conditions, h.storeId, ?_⟩, rfl⟩
    · exact h.models.replace (records_rule _ _) hsome fun ρ hρ => (hnew ρ hρ).1
    · refine h.ops.replace fun ρ hρ ρ' hρ' hsame => ?_
      rcases (hnew ρ hρ).2 with hin | hops
      · exact h.ops ρ' hρ' ρ hin hsame.1 hsame.2.1 hsame.2.2
      · exact hops ρ' hρ' hsame
  · refine ⟨⟨h.tuples, h.models, ?_, h.storeId, h.ops⟩, rfl⟩
    exact h.conditions.replace (records_condition _ _) hsome hnew

theorem HistoryInv.applyOps (h : HistoryInv store s) {ops : List StoreOp}
    (hs : applyOps store performedBy s ops = some s') :
    HistoryInv store s' ∧ s'.clock = s.clock := by
  induction ops generalizing s with
  | nil =>
    cases hs
    exact ⟨h, rfl⟩
  | cons op ops ih =>
    obtain ⟨s₁, h₁, hs⟩ := Option.bind_eq_some_iff.mp hs
    obtain ⟨hinv, hclock⟩ := h.applyOp h₁
    obtain ⟨hinv', hclock'⟩ := ih hinv hs
    exact ⟨hinv', hclock'.trans hclock⟩

/-- **Every step keeps the invariant.** -/
theorem historyInv_step : Keeps (historyStep store) (HistoryInv store) := by
  intro s e s' h hs
  cases e with
  | tick d =>
    cases hs
    have hle : s.clock ≤ s.clock + d := by omega
    exact ⟨h.tuples.mono hle, h.models.mono hle, h.conditions.mono hle, h.storeId, h.ops⟩
  | transact ops performedBy => exact (h.applyOps hs).1

/-! ## Later transactions -/

/-- A transaction starts after the instant `t`. -/
def StartsAfter (t : ℤ) (s : HistoryState) : HistoryEvent → Prop
  | .tick _ => True
  | .transact _ _ => t < s.clock

instance (t : ℤ) (s : HistoryState) : (e : HistoryEvent) → Decidable (StartsAfter t s e)
  | .tick _ => .isTrue trivial
  | .transact _ _ => inferInstanceAs (Decidable (t < s.clock))

/-- The three logs are continued by events after the instant `t`. -/
structure LogsLater (t : ℤ) (s s' : HistoryState) : Prop where
  tuples : tupleEvents.Later t s.tuples.log s'.tuples.log
  models : ruleEvents.Later t s.models.log s'.models.log
  conditions : conditionEvents.Later t s.conditions.log s'.conditions.log

theorem LogsLater.refl (t : ℤ) (s : HistoryState) : LogsLater t s s :=
  ⟨.refl _ _ _, .refl _ _ _, .refl _ _ _⟩

theorem LogsLater.trans {t : ℤ} {s s' s'' : HistoryState} (h : LogsLater t s s')
    (h' : LogsLater t s' s'') : LogsLater t s s'' :=
  ⟨h.tuples.trans h'.tuples, h.models.trans h'.models, h.conditions.trans h'.conditions⟩

theorem logsLater_applyOps {t : ℤ} (ht : t < s.clock) {ops : List StoreOp}
    (hs : applyOps store performedBy s ops = some s') : LogsLater t s s' := by
  induction ops generalizing s with
  | nil =>
    cases hs
    exact .refl t _
  | cons op ops ih =>
    obtain ⟨s₁, h₁, hs⟩ := Option.bind_eq_some_iff.mp hs
    have hone : LogsLater t s s₁ ∧ s₁.clock = s.clock := by
      rcases applyOp_cases h₁ with ⟨n, rfl⟩ | ⟨op', new, -, -, rfl⟩ | ⟨key, new, -, -, rfl⟩ |
        ⟨id, new, n, -, -, rfl⟩
      · exact ⟨⟨.refl _ _ _, .refl _ _ _, .refl _ _ _⟩, rfl⟩
      · exact ⟨⟨Audited.later_replace (records_tuple _ _ _) ht _ _, .refl _ _ _, .refl _ _ _⟩, rfl⟩
      · exact ⟨⟨.refl _ _ _, Audited.later_replace (records_rule _ _) ht _ _, .refl _ _ _⟩, rfl⟩
      · exact ⟨⟨.refl _ _ _, .refl _ _ _, Audited.later_replace (records_condition _ _) ht _ _⟩, rfl⟩
    exact hone.1.trans (ih (hone.2 ▸ ht) hs)

/-- **Later transactions only append events of later instants.** -/
theorem logs_of_later {t : ℤ} {es : List HistoryEvent}
    (hok : Along (historyStep store) (StartsAfter t) s es)
    (hs : run (historyStep store) s es = some s') : LogsLater t s s' := by
  refine Along.run (I := fun s₁ => LogsLater t s s₁) (fun s₁ e s₂ h hafter hstep => ?_) hok
    (.refl t s) hs
  cases e with
  | tick d =>
    cases hstep
    exact ⟨h.tuples, h.models, h.conditions⟩
  | transact ops performedBy => exact h.trans (logsLater_applyOps hafter hstep)

/-! ## The snapshots of an instant -/

namespace HistoryInv

variable {t : ℤ} (h : HistoryInv store s) (hlater : LogsLater t s s') (ht : s.clock ≤ t)
include h hlater ht

/-- The snapshot of the rules is the model at the instant. -/
theorem mem_rules {ρ : Rule} :
    ρ ∈ buildModelSnapshot s'.models.log t ↔ ρ ∈ s.models.rows :=
  h.models.mem_asOf ht hlater.models

/-- The snapshot of the conditions is the conditions at the instant. -/
theorem mem_conditions {c : ConditionRow} :
    c ∈ buildConditionSnapshot s'.conditions.log t ↔ c ∈ s.conditions.rows :=
  h.conditions.mem_asOf ht hlater.conditions

/-- The snapshot of the tuples is the visible tuples at the instant, without their expiry. -/
theorem mem_tuples (hstore : ∀ r ∈ s'.tuples.log, r.storeId = store) {a : Tuple} :
    a ∈ buildAuditSnapshot s'.tuples.log store none t ↔
      ∃ a' ∈ visible t s.tuples.rows, a = { a' with expiresAt := none } := by
  have hlog : (s'.tuples.log.filter fun r => r.storeId = store && r.performedAt ≤ t) =
      s'.tuples.log.filter fun r => tupleEvents.performedAt r ≤ t := by
    refine List.filter_congr fun r hr => ?_
    rw [decide_eq_true (hstore r hr), Bool.true_and]
    rfl
  -- within the store, both replays identify a tuple alike
  have hlatest : latest AuditRow.rowKey AuditRow.key
      (s'.tuples.log.filter fun r => tupleEvents.performedAt r ≤ t) =
      latest (Tuple.rowKey store ∘ tupleEvents.row) tupleEvents.pos
        (s'.tuples.log.filter fun r => tupleEvents.performedAt r ≤ t) := by
    have hkey : ∀ r ∈ s'.tuples.log.filter fun r => tupleEvents.performedAt r ≤ t,
        r.rowKey = (Tuple.rowKey store ∘ tupleEvents.row) r := by
      intro r hr
      change r.toTuple.rowKey r.storeId = r.toTuple.rowKey store
      rw [hstore r (List.mem_of_mem_filter hr)]
    refine List.filter_congr fun r hr => ?_
    rw [Bool.eq_iff_iff, List.all_eq_true, List.all_eq_true]
    refine forall₂_congr fun r' hr' => ?_
    rw [hkey r hr, hkey r' hr']
    rfl
  have hmem := fun a' => h.tuples.mem_asOf (a := a') ht hlater.tuples
  rw [buildAuditSnapshot, snapshotEvents, Option.any_none, if_neg Bool.false_ne_true, hlog,
    hlatest, List.mem_map]
  constructor
  · rintro ⟨r, hr, rfl⟩
    obtain ⟨hr, hsel⟩ := List.mem_filter.mp hr
    rw [Bool.and_eq_true] at hsel
    refine ⟨r.toTuple, List.mem_filter.mpr ⟨(hmem r.toTuple).mp ?_, hsel.2⟩, rfl⟩
    exact List.mem_map.mpr ⟨r, List.mem_filter.mpr ⟨hr, hsel.1⟩, rfl⟩
  · rintro ⟨a', ha', rfl⟩
    obtain ⟨ha', hvis⟩ := List.mem_filter.mp ha'
    obtain ⟨r, hr, rfl⟩ := List.mem_map.mp ((hmem a').mpr ha')
    obtain ⟨hr, hins⟩ := List.mem_filter.mp hr
    exact ⟨r, List.mem_filter.mpr ⟨hr, by rw [Bool.and_eq_true]; exact ⟨hins, hvis⟩⟩, rfl⟩

end HistoryInv

end PgAuthz
