import PgAuthz.Audit.TimeTravel

/-!
# Cleaning up expired tuples

`cleanup_expired_tuples` deletes rows that expired some time ago. The row policy hides such a row from
every read, but it is still there: a write of the same tuple meets it and updates it, a batch takes its
expiry away and leaves its condition.

Two histories that differ in clean-ups only are compared instant by instant. They agree on the rows that
the policy shows, and no read and no snapshot of a past instant tells them apart, as long as no batch
grants a tuple again whose expired row has a condition. There the history without the clean-up grants
under the old condition, and the one with it grants unconditionally.

## Main definitions

* `WithCleanups`: a history with clean-ups put in
* `Proper`: what `write_tuple` checks, and batches that meet no expired row with a condition
* `Hides`: two states that agree on what the row policy shows

## Main results

* `Hides.applyOp`: a statement on both sides keeps the agreement
* `Hides.cleanup`: so does a clean-up on one side
* `cleanups_unseen`: no check and no snapshot tells the histories apart
* `batch_sees_cleanup`: a batch may
-/

namespace PgAuthz

open Feed Transition

variable {store : ℕ} {performedBy : String} {s s' s₁ s₁' : HistoryState} {t : ℤ}

/-! ## Rows that the policy shows -/

theorem visibleAt_of_le {a : Tuple} {now : ℤ} (ht : now ≤ t) (h : a.visibleAt t = true) :
    a.visibleAt now = true := by
  unfold Tuple.visibleAt at h ⊢
  split
  · rfl
  · rename_i e he
    simp only [he, decide_eq_true_iff] at h ⊢
    omega

theorem visible_of_le {now : ℤ} (ht : now ≤ t) (rows : List Tuple) :
    visible t rows = visible t (visible now rows) := by
  unfold visible
  rw [List.filter_filter]
  refine List.filter_congr fun a _ => ?_
  rw [Bool.eq_iff_iff, Bool.and_eq_true]
  exact ⟨fun h => ⟨h, visibleAt_of_le ht h⟩, And.left⟩

/-- The rows after a statement with the given effect on its row. -/
def afterEffect (store : ℕ) (rows : List Tuple) (k : RowKey) :
    Option (Option Tuple × Option Tuple) → List Tuple
  | none => rows
  | some (_, new) => (rows.filter fun a => a.rowKey store ≠ k) ++ new.toList

/-- The row of a key that the policy shows. -/
theorem visible_filter_key {rows : List Tuple} {k : RowKey}
    (hhidden : ∀ a ∈ rows, a.rowKey store = k → a.visibleAt t = false) :
    (visible t rows).filter (fun a => a.rowKey store ≠ k) = visible t rows := by
  refine List.filter_eq_self.mpr fun a ha => ?_
  obtain ⟨hmem, hvis⟩ := List.mem_filter.mp ha
  rw [decide_eq_true_iff]
  intro hk
  rw [hhidden a hmem hk] at hvis
  cases hvis

/-- What a statement shows of its row, if the row was hidden before: what the row is now. -/
theorem visible_afterEffect_hidden {rows : List Tuple} {k : RowKey}
    {effect : Option (Option Tuple × Option Tuple)}
    (hhidden : ∀ a ∈ rows, a.rowKey store = k → a.visibleAt t = false) :
    visible t (afterEffect store rows k effect) =
      visible t rows ++ visible t ((effect.bind Prod.snd).toList) := by
  cases effect with
  | none => simp [afterEffect, visible]
  | some p =>
    rw [← visible_filter_key hhidden]
    simp [afterEffect, visible, List.filter_append, List.filter_filter, Bool.and_comm]

theorem visible_afterEffect {rows : List Tuple} {k : RowKey} {old new : Option Tuple} :
    visible t (afterEffect store rows k (some (old, new))) =
      ((visible t rows).filter fun a => a.rowKey store ≠ k) ++ visible t new.toList := by
  simp [afterEffect, visible, List.filter_append, List.filter_filter, Bool.and_comm]

/-! ## Statements on a hidden row -/

/-- The relation of a tuple is an id, and ids are positive. -/
def Tuple.Stored (a : Tuple) : Prop := a.userRelation ≠ some 0

instance (a : Tuple) : Decidable a.Stored := inferInstanceAs (Decidable (_ ≠ _))

theorem eq_of_rowKey {a b : Tuple} (ha : a.Stored) (hb : b.Stored) (hkey : a.rowKey store = b.rowKey store)
    (hcondition : a.conditionId = b.conditionId) (hcontext : a.conditionContext = b.conditionContext)
    (hexpiry : a.expiresAt = b.expiresAt) : a = b := by
  obtain ⟨userType, userId, userRelation, relation, objectType, objectId, _, _, _⟩ := a
  obtain ⟨userType', userId', userRelation', relation', objectType', objectId', _, _, _⟩ := b
  simp only [Tuple.rowKey, RowKey.mk.injEq, true_and] at hkey
  obtain ⟨rfl, rfl, hrelation, rfl, rfl, rfl⟩ := hkey
  have huser : userRelation = userRelation' := by
    cases userRelation <;> cases userRelation' <;> simp_all [Tuple.Stored]
  subst huser
  simp_all

/-- The row that a write leaves: the tuple of `write_tuple`, and that of a batch, which is never
conditional or temporary. -/
def TupleOp.written : TupleOp → Option Tuple
  | .upsert _ a => some a
  | .regrant _ a => some { a with conditionId := none, conditionContext := none, expiresAt := none }
  | .delete _ => none
  | .cleanup _ _ => none

/-- What is asked of a statement: `write_tuple` refuses an expiry in the past, and a batch meets no expired
row with a condition. -/
def ProperOn (current : Option Tuple) (now : ℤ) : TupleOp → Prop
  | .upsert _ a => a.visibleAt now = true ∧ a.Stored
  | .regrant _ a => a.Stored ∧ ∀ old ∈ current, old.visibleAt now = false →
      old.conditionId = none ∧ old.conditionContext = none
  | _ => True

theorem ProperOn.of_none {op : TupleOp} {current : Option Tuple} {now : ℤ} (h : ProperOn current now op) :
    ProperOn none now op := by
  cases op with
  | upsert n a => exact h
  | regrant n a => exact ⟨h.1, nofun⟩
  | delete k => trivial
  | cleanup k grace => trivial

/-- **A statement on a hidden row does not depend on it**: it leaves the row that it would leave if there
had been none. -/
theorem effect_hidden {op : TupleOp} {current : Option Tuple} {now : ℤ}
    (hok : ProperOn current now op) (hhidden : ∀ old ∈ current, old.visibleAt now = false)
    (hkey : ∀ old ∈ current, old.Stored ∧ old.rowKey op.key.storeId = op.key) :
    (op.effect now now current).bind Prod.snd = op.written := by
  cases current with
  | none => cases op <;> rfl
  | some old =>
    have hold : old.visibleAt now = false := hhidden old rfl
    obtain ⟨hstored, hkey⟩ := hkey old rfl
    cases op with
    | upsert n a =>
      obtain ⟨hvis, ha⟩ := hok
      -- the row expired and the write does not, so the row changes
      have hne : old.expiresAt ≠ a.expiresAt := by
        intro heq
        unfold Tuple.visibleAt at hold hvis
        rw [heq] at hold
        rw [hold] at hvis
        cases hvis
      have hnew : ({ old with
          conditionId := a.conditionId, conditionContext := a.conditionContext,
          expiresAt := a.expiresAt } : Tuple) = a :=
        eq_of_rowKey hstored ha hkey rfl rfl rfl
      simp only [TupleOp.effect]
      rw [if_pos (.inr (.inr hne))]
      exact congrArg some hnew
    | regrant n a =>
      obtain ⟨ha, hcond⟩ := hok
      obtain ⟨hcondition, hcontext⟩ := hcond old rfl hold
      have hexpires : old.expiresAt.isSome := by
        unfold Tuple.visibleAt at hold
        cases hexpiry : old.expiresAt with
        | none => simp [hexpiry] at hold
        | some e => rfl
      have hnew : ({ old with expiresAt := none } : Tuple) =
          { a with conditionId := none, conditionContext := none, expiresAt := none } :=
        eq_of_rowKey hstored ha hkey hcondition hcontext rfl
      simp only [TupleOp.effect]
      rw [if_pos hexpires]
      exact congrArg some hnew
    | delete k =>
      simp only [TupleOp.effect, hold, Bool.false_eq_true, if_false]
      rfl
    | cleanup k grace =>
      simp only [TupleOp.effect]
      split <;> rfl

/-- A statement leaves a row whose relation is an id. -/
theorem effect_stored {op : TupleOp} {current old new : Option Tuple} {now : ℤ}
    (hok : ProperOn current now op) (hcurrent : ∀ a ∈ current, a.Stored)
    (heffect : op.effect now now current = some (old, new)) : ∀ a ∈ new, a.Stored := by
  cases op with
  | upsert n b =>
    cases current with
    | none =>
      cases heffect
      rintro _ ⟨⟩
      exact hok.2
    | some o =>
      simp only [TupleOp.effect] at heffect
      split at heffect
      · cases heffect
        rintro _ ⟨⟩
        exact hcurrent o rfl
      · cases heffect
  | regrant n b =>
    cases current with
    | none =>
      cases heffect
      rintro _ ⟨⟩
      exact hok.1
    | some o =>
      simp only [TupleOp.effect] at heffect
      split at heffect
      · cases heffect
        rintro _ ⟨⟩
        exact hcurrent o rfl
      · cases heffect
  | delete k =>
    cases current with
    | none => cases heffect
    | some o =>
      simp only [TupleOp.effect] at heffect
      split at heffect
      · cases heffect
        rintro _ ⟨⟩
      · cases heffect
  | cleanup k grace =>
    cases current with
    | none => cases heffect
    | some o =>
      simp only [TupleOp.effect] at heffect
      split at heffect
      · cases heffect
        rintro _ ⟨⟩
      · cases heffect

instance (current : Option Tuple) (now : ℤ) : (op : TupleOp) → Decidable (ProperOn current now op)
  | .upsert _ a => inferInstanceAs (Decidable (a.visibleAt now = true ∧ a.Stored))
  | .regrant _ a => inferInstanceAs (Decidable (a.Stored ∧ ∀ old ∈ current, old.visibleAt now = false →
      old.conditionId = none ∧ old.conditionContext = none))
  | .delete _ => .isTrue trivial
  | .cleanup _ _ => .isTrue trivial

/-! ## Two histories -/

/-- A statement of a history is in order. -/
def ProperOp (store : ℕ) (s : HistoryState) : StoreOp → Prop
  | .tuple op => ProperOn (s.tuples.current (Tuple.rowKey store) op.key) s.clock op
  | _ => True

/-- The statements of a transaction are in order, one after the other. -/
def Proper (store : ℕ) (s : HistoryState) : HistoryEvent → Prop
  | .tick _ => True
  | .transact ops performedBy => Along (applyOp store performedBy) (ProperOp store) s ops

instance (s : HistoryState) : (op : StoreOp) → Decidable (ProperOp store s op)
  | .tuple op => inferInstanceAs (Decidable (ProperOn _ s.clock op))
  | .addRule _ => .isTrue trivial
  | .removeRule _ => .isTrue trivial
  | .createCondition .. => .isTrue trivial
  | .deleteCondition _ => .isTrue trivial

instance (s : HistoryState) : (e : HistoryEvent) → Decidable (Proper store s e)
  | .tick _ => .isTrue trivial
  | .transact ops by_ => inferInstanceAs (Decidable (Along (applyOp store by_) (ProperOp store) s ops))

/-- A clean-up of expired rows, with a grace that is no negative interval. -/
def CleansUp (store : ℕ) (op : StoreOp) : Prop :=
  ∃ key grace, op = .tuple (.cleanup key grace) ∧ key.storeId = store ∧ 0 ≤ grace

/-- The second history is the first one with clean-ups put in. -/
inductive WithCleanups (store : ℕ) : List HistoryEvent → List HistoryEvent → Prop
  | nil : WithCleanups store [] []
  | event (e : HistoryEvent) {es es' : List HistoryEvent} (h : WithCleanups store es es') :
      WithCleanups store (e :: es) (e :: es')
  | cleanup (ops : List StoreOp) (performedBy : String) {es es' : List HistoryEvent}
      (hops : ∀ op ∈ ops, CleansUp store op) (h : WithCleanups store es es') :
      WithCleanups store es (.transact ops performedBy :: es')

/-- The states agree on all but hidden rows, of which the second one has some of the first. -/
structure Hides (store : ℕ) (s s' : HistoryState) : Prop where
  inv : HistoryInv store s
  inv' : HistoryInv store s'
  clock : s'.clock = s.clock
  models : s'.models = s.models
  conditions : s'.conditions = s.conditions
  nextConditionId : s'.nextConditionId = s.nextConditionId
  rows : visible s.clock s'.tuples.rows = visible s.clock s.tuples.rows
  subset : ∀ a ∈ s'.tuples.rows, a ∈ s.tuples.rows
  stored : ∀ a ∈ s.tuples.rows, a.Stored

theorem Hides.init (store : ℕ) (clock : ℤ) :
    Hides store (HistoryState.init clock) (HistoryState.init clock) where
  inv := historyInv_init store clock
  inv' := historyInv_init store clock
  clock := rfl
  models := rfl
  conditions := rfl
  nextConditionId := rfl
  rows := rfl
  subset _ ha := ha
  stored := List.forall_mem_nil _

/-- A row of the second state is that of the first one, or hidden and gone. -/
theorem Hides.current_cases (h : Hides store s s') (k : RowKey) :
    s'.tuples.current (Tuple.rowKey store) k = s.tuples.current (Tuple.rowKey store) k ∨
      s'.tuples.current (Tuple.rowKey store) k = none ∧
        ∀ old ∈ s.tuples.current (Tuple.rowKey store) k, old.visibleAt s.clock = false := by
  have hsub : ∀ a, s'.tuples.current (Tuple.rowKey store) k = some a →
      s.tuples.current (Tuple.rowKey store) k = some a := by
    intro a ha
    obtain ⟨hmem, hk⟩ := h.inv'.tuples.current_eq_some.mp ha
    exact h.inv.tuples.current_eq_some.mpr ⟨h.subset a hmem, hk⟩
  cases hcur' : s'.tuples.current (Tuple.rowKey store) k with
  | some a => exact .inl (hsub a hcur').symm
  | none =>
    refine .inr ⟨rfl, fun old hold => ?_⟩
    by_contra hvis
    -- a row that is shown is in both states
    obtain ⟨hmem, hk⟩ := h.inv.tuples.current_eq_some.mp hold
    have hshown : old ∈ visible s.clock s'.tuples.rows := by
      rw [h.rows]
      exact List.mem_filter.mpr ⟨hmem, by simpa using hvis⟩
    have hfound := h.inv'.tuples.current_eq_some.mpr ⟨(List.mem_filter.mp hshown).1, hk⟩
    rw [hcur'] at hfound
    cases hfound

/-- A statement on a row of a table with a log. -/
theorem applyOp_tuple (s : HistoryState) (performedBy : String) (op : TupleOp)
    (hstore : op.key.storeId = store) :
    ∃ A, applyOp store performedBy s (.tuple op) = some { s with tuples := A } ∧
      A.rows = afterEffect store s.tuples.rows op.key
        (op.effect s.clock s.clock (s.tuples.current (Tuple.rowKey store) op.key)) := by
  simp only [PgAuthz.applyOp, if_pos hstore]
  cases op.effect s.clock s.clock (s.tuples.current (Tuple.rowKey store) op.key) with
  | none => exact ⟨s.tuples, rfl, rfl⟩
  | some p => exact ⟨_, rfl, rfl⟩

theorem mem_afterEffect {rows : List Tuple} {k : RowKey} {effect : Option (Option Tuple × Option Tuple)}
    {a : Tuple} : a ∈ afterEffect store rows k effect ↔
      a ∈ rows ∧ (effect = none ∨ a.rowKey store ≠ k) ∨ a ∈ effect.bind Prod.snd := by
  cases effect with
  | none => simp [afterEffect]
  | some p => simp [afterEffect]

/-- **A statement on both sides keeps the agreement.** -/
theorem Hides.tuple (h : Hides store s s') {op : TupleOp} (hok : ProperOp store s (.tuple op))
    (hs : applyOp store performedBy s (.tuple op) = some s₁) :
    ∃ s₁', applyOp store performedBy s' (.tuple op) = some s₁' ∧ Hides store s₁ s₁' := by
  have hstore : op.key.storeId = store := by
    by_contra hne
    simp [PgAuthz.applyOp, hne] at hs
  obtain ⟨A, hA, hrows⟩ := applyOp_tuple s performedBy op hstore
  obtain ⟨A', hA', hrows'⟩ := applyOp_tuple s' performedBy op hstore
  obtain rfl : { s with tuples := A } = s₁ := Option.some.inj (hA.symm.trans hs)
  rw [h.clock] at hrows'
  have hok : ProperOn (s.tuples.current (Tuple.rowKey store) op.key) s.clock op := hok
  have hcurrent : ∀ a ∈ s.tuples.current (Tuple.rowKey store) op.key,
      a.Stored ∧ a.rowKey op.key.storeId = op.key := by
    intro a ha
    obtain ⟨hmem, hk⟩ := h.inv.tuples.current_eq_some.mp ha
    exact ⟨h.stored a hmem, hstore ▸ hk⟩
  -- where there is no row, nothing is asked of it
  have hgone : ∀ a ∈ (none : Option Tuple), a.visibleAt s.clock = false := by
    intro a ha
    cases ha
  have hgone' : ∀ a ∈ (none : Option Tuple), a.Stored ∧ a.rowKey op.key.storeId = op.key := by
    intro a ha
    cases ha
  refine ⟨_, hA', (h.inv.applyOp hA).1, (h.inv'.applyOp hA').1, h.clock, h.models, h.conditions,
    h.nextConditionId, ?_, ?_, ?_⟩
  · show visible s.clock A'.rows = visible s.clock A.rows
    rw [hrows, hrows']
    rcases h.current_cases op.key with hsame | ⟨hnone, hhidden⟩
    · rw [hsame]
      cases op.effect s.clock s.clock (s.tuples.current (Tuple.rowKey store) op.key) with
      | none => exact h.rows
      | some p =>
        obtain ⟨old, new⟩ := p
        rw [visible_afterEffect, visible_afterEffect, h.rows]
    · -- the row is hidden in the one state and gone in the other
      have hrow : ∀ a ∈ s.tuples.rows, a.rowKey store = op.key → a.visibleAt s.clock = false :=
        fun a ha hk => hhidden a (h.inv.tuples.current_eq_some.mpr ⟨ha, hk⟩)
      have hrow' : ∀ a ∈ s'.tuples.rows, a.rowKey store = op.key → a.visibleAt s.clock = false :=
        fun a ha hk => hrow a (h.subset a ha) hk
      rw [visible_afterEffect_hidden hrow, visible_afterEffect_hidden hrow', h.rows, hnone,
        effect_hidden hok hhidden hcurrent,
        effect_hidden hok.of_none hgone hgone']
  · intro a ha
    show a ∈ A.rows
    have ha : a ∈ A'.rows := ha
    rw [hrows', mem_afterEffect] at ha
    rw [hrows, mem_afterEffect]
    rcases h.current_cases op.key with hsame | ⟨hnone, hhidden⟩
    · rw [hsame] at ha
      exact ha.imp_left fun hmem => ⟨h.subset a hmem.1, hmem.2⟩
    · rcases ha with ⟨hmem, -⟩ | ha
      · refine .inl ⟨h.subset a hmem, .inr fun hk => ?_⟩
        have hfound := h.inv'.tuples.current_eq_some.mpr ⟨hmem, hk⟩
        rw [hnone] at hfound
        cases hfound
      · rw [hnone, effect_hidden hok.of_none hgone hgone'] at ha
        rw [effect_hidden hok hhidden hcurrent]
        exact .inr ha
  · intro a ha
    have ha : a ∈ A.rows := ha
    rw [hrows] at ha
    rcases mem_afterEffect.mp ha with ⟨ha, -⟩ | ha
    · exact h.stored a ha
    · obtain ⟨⟨old, new⟩, heffect, hnew⟩ := Option.bind_eq_some_iff.mp ha
      exact effect_stored hok (fun b hb => (hcurrent b hb).1) heffect a hnew

/-- A statement on the rules or the conditions does not read the tuples. -/
theorem applyOp_withTuples {op : StoreOp} (hop : ∀ op', op ≠ .tuple op')
    (hs : applyOp store performedBy s op = some s₁) (A : Audited AuditRow Tuple) :
    applyOp store performedBy { s with tuples := A } op = some { s₁ with tuples := A } ∧
      s₁.tuples = s.tuples ∧ s₁.clock = s.clock := by
  cases op with
  | tuple op' => exact absurd rfl (hop op')
  | addRule ρ =>
    simp only [PgAuthz.applyOp] at hs ⊢
    split at hs
    · cases hs
    · rename_i hops
      rw [if_neg hops]
      cases hs
      exact ⟨rfl, rfl, rfl⟩
  | removeRule key =>
    simp only [PgAuthz.applyOp] at hs ⊢
    cases hcur : s.models.current Rule.ruleKey key with
    | none =>
      simp only [hcur] at hs ⊢
      cases hs
      exact ⟨rfl, rfl, rfl⟩
    | some ρ =>
      simp only [hcur] at hs ⊢
      cases hs
      exact ⟨rfl, rfl, rfl⟩
  | createCondition name expression lang requiredRequest requiredStored timeSource description =>
    simp only [PgAuthz.applyOp] at hs ⊢
    cases hfind : s.conditions.rows.find? fun c => c.name = name with
    | none =>
      simp only [hfind] at hs ⊢
      cases hs
      exact ⟨rfl, rfl, rfl⟩
    | some old =>
      simp only [hfind] at hs ⊢
      split at hs
      · rename_i hsame
        rw [if_pos hsame]
        cases hs
        exact ⟨rfl, rfl, rfl⟩
      · rename_i hne
        rw [if_neg hne]
        cases hs
        exact ⟨rfl, rfl, rfl⟩
  | deleteCondition name =>
    simp only [PgAuthz.applyOp] at hs ⊢
    cases hfind : s.conditions.rows.find? fun c => c.name = name with
    | none =>
      simp only [hfind] at hs ⊢
      cases hs
      exact ⟨rfl, rfl, rfl⟩
    | some old =>
      simp only [hfind] at hs ⊢
      cases hs
      exact ⟨rfl, rfl, rfl⟩

theorem Hides.applyOp (h : Hides store s s') {op : StoreOp} (hok : ProperOp store s op)
    (hs : applyOp store performedBy s op = some s₁) :
    ∃ s₁', applyOp store performedBy s' op = some s₁' ∧ Hides store s₁ s₁' := by
  by_cases htuple : ∃ op', op = .tuple op'
  · obtain ⟨op', rfl⟩ := htuple
    exact h.tuple hok hs
  · obtain ⟨hs', htuples, hclock⟩ := applyOp_withTuples (fun op' hop => htuple ⟨op', hop⟩) hs s'.tuples
    have hsame : { s with tuples := s'.tuples } = s' := by
      obtain ⟨clock, tuples, models, conditions, next⟩ := s
      obtain ⟨clock', tuples', models', conditions', next'⟩ := s'
      obtain rfl : clock' = clock := h.clock
      obtain rfl : models' = models := h.models
      obtain rfl : conditions' = conditions := h.conditions
      obtain rfl : next' = next := h.nextConditionId
      rfl
    rw [hsame] at hs'
    refine ⟨_, hs', (h.inv.applyOp hs).1, (h.inv'.applyOp hs').1, rfl, rfl, rfl, rfl, ?_, ?_, ?_⟩
    · rw [htuples, hclock]
      exact h.rows
    · rw [htuples]
      exact h.subset
    · rw [htuples]
      exact h.stored

/-- A transaction of both histories. -/
theorem Hides.applyOps (h : Hides store s s') {ops : List StoreOp}
    (hok : Along (PgAuthz.applyOp store performedBy) (ProperOp store) s ops)
    (hs : applyOps store performedBy s ops = some s₁) :
    ∃ s₁', applyOps store performedBy s' ops = some s₁' ∧ Hides store s₁ s₁' := by
  induction ops generalizing s s' with
  | nil =>
    cases hs
    exact ⟨s', rfl, h⟩
  | cons op ops ih =>
    obtain ⟨s₂, h₂, hs⟩ := Option.bind_eq_some_iff.mp hs
    obtain ⟨s₂', h₂', hnext⟩ := h.applyOp hok.1 h₂
    obtain ⟨s₁', h₁', hend⟩ := ih hnext (hok.2 s₂ h₂) hs
    exact ⟨s₁', Option.bind_eq_some_iff.mpr ⟨s₂', h₂', h₁'⟩, hend⟩

/-- A clean-up leaves a row, or it takes an expired one away. -/
theorem effect_cleanup {key : RowKey} {grace now : ℤ} (hgrace : 0 ≤ grace) (current : Option Tuple) :
    (TupleOp.cleanup key grace).effect now now current = none ∨
      (∀ old ∈ current, old.visibleAt now = false) ∧
        (TupleOp.cleanup key grace).effect now now current = some (current, none) := by
  cases current with
  | none => exact .inl rfl
  | some old =>
    simp only [TupleOp.effect]
    split
    · rename_i hexpired
      refine .inr ⟨?_, rfl⟩
      rintro _ ⟨⟩
      obtain ⟨e, he, hle⟩ := Option.any_eq_true _ _ |>.mp hexpired
      have hle : e ≤ now - grace := of_decide_eq_true hle
      simp only [Tuple.visibleAt, he, decide_eq_false_iff_not]
      omega
    · exact .inl rfl

/-- **A clean-up on one side keeps the agreement.** -/
theorem Hides.cleanup (h : Hides store s s') {op : StoreOp} (hop : CleansUp store op) :
    ∃ s₁', PgAuthz.applyOp store performedBy s' op = some s₁' ∧ Hides store s s₁' := by
  obtain ⟨key, grace, rfl, hstore, hgrace⟩ := hop
  obtain ⟨A', hA', hafter⟩ := applyOp_tuple s' performedBy (.cleanup key grace) hstore
  have hrows : A'.rows = afterEffect store s'.tuples.rows key ((TupleOp.cleanup key grace).effect
      s.clock s.clock (s'.tuples.current (Tuple.rowKey store) key)) := h.clock ▸ hafter
  have hshown : visible s.clock A'.rows = visible s.clock s.tuples.rows ∧
      ∀ a ∈ A'.rows, a ∈ s'.tuples.rows := by
    rw [hrows]
    rcases effect_cleanup hgrace (s'.tuples.current (Tuple.rowKey store) key) with hnone | ⟨hhidden, hgone⟩
    · rw [hnone]
      exact ⟨h.rows, fun _ ha => ha⟩
    · rw [hgone]
      refine ⟨?_, fun a ha => ((mem_afterEffect.mp ha).resolve_right nofun).1⟩
      rw [visible_afterEffect_hidden fun a ha hk =>
        hhidden a (h.inv'.tuples.current_eq_some.mpr ⟨ha, hk⟩), h.rows]
      exact List.append_nil _
  exact ⟨_, hA', h.inv, (h.inv'.applyOp hA').1, h.clock, h.models, h.conditions, h.nextConditionId,
    hshown.1, fun a ha => h.subset a (hshown.2 a ha), h.stored⟩

theorem Hides.cleanups (h : Hides store s s') (performedBy : String) {ops : List StoreOp}
    (hops : ∀ op ∈ ops, CleansUp store op) :
    ∃ s₁', PgAuthz.applyOps store performedBy s' ops = some s₁' ∧ Hides store s s₁' := by
  induction ops generalizing s' with
  | nil => exact ⟨s', rfl, h⟩
  | cons op ops ih =>
    obtain ⟨hop, hops⟩ := List.forall_mem_cons.mp hops
    obtain ⟨s₂', h₂', hnext⟩ := h.cleanup hop
    obtain ⟨s₁', h₁', hend⟩ := ih hnext hops
    exact ⟨s₁', Option.bind_eq_some_iff.mpr ⟨s₂', h₂', h₁'⟩, hend⟩

/-! ## What is read of the histories -/

/-- The states agree on what the policy shows, and on the snapshots of all instants. -/
structure Unseen (store : ℕ) (s s' : HistoryState) : Prop extends Hides store s s' where
  snapshots : ∀ t a, a ∈ buildAuditSnapshot s'.tuples.log store none t ↔
    a ∈ buildAuditSnapshot s.tuples.log store none t

theorem Unseen.init (store : ℕ) (clock : ℤ) :
    Unseen store (HistoryState.init clock) (HistoryState.init clock) :=
  { Hides.init store clock with snapshots := fun _ _ => Iff.rfl }

/-- Events after an instant do not change its snapshot. -/
theorem buildAuditSnapshot_later {log log' : List AuditRow} (h : tupleEvents.Later t log log') :
    buildAuditSnapshot log' store none t = buildAuditSnapshot log store none t := by
  obtain ⟨later, rfl, hlater⟩ := h
  have hnone : (later.filter fun r => r.storeId = store && r.performedAt ≤ t) = [] := by
    refine List.filter_eq_nil_iff.mpr fun r hr => ?_
    have hafter : t < r.performedAt := hlater r hr
    simp [not_le.mpr hafter]
  have hfilter : ((log ++ later).filter fun r => r.storeId = store && r.performedAt ≤ t) =
      log.filter fun r => r.storeId = store && r.performedAt ≤ t := by
    rw [List.filter_append, hnone, List.append_nil]
  simp only [buildAuditSnapshot, snapshotEvents, hfilter]

/-- What is shown at the clock decides the snapshots from the clock on; the earlier ones stay. -/
theorem Unseen.next (h : Unseen store s s') (hnext : Hides store s₁ s₁') (hclock : s₁.clock = s.clock)
    (hlater : ∀ t < s.clock, LogsLater t s s₁) (hlater' : ∀ t < s.clock, LogsLater t s' s₁') :
    Unseen store s₁ s₁' := by
  refine { hnext with snapshots := fun t a => ?_ }
  by_cases ht : t < s.clock
  · rw [buildAuditSnapshot_later (hlater t ht).tuples, buildAuditSnapshot_later (hlater' t ht).tuples]
    exact h.snapshots t a
  · have ht : s₁.clock ≤ t := hclock ▸ not_lt.mp ht
    have ht' : s₁'.clock ≤ t := hnext.clock ▸ ht
    rw [hnext.inv.mem_tuples (.refl t s₁) ht hnext.inv.storeId,
      hnext.inv'.mem_tuples (.refl t s₁') ht' hnext.inv'.storeId, visible_of_le ht s₁.tuples.rows,
      visible_of_le ht s₁'.tuples.rows, hnext.rows]

/-- **An event of both histories.** -/
theorem Unseen.event (h : Unseen store s s') {e : HistoryEvent} (hok : Proper store s e)
    (hs : historyStep store s e = some s₁) :
    ∃ s₁', historyStep store s' e = some s₁' ∧ Unseen store s₁ s₁' := by
  cases e with
  | tick d =>
    obtain rfl := Option.some.inj hs
    have hle : s.clock ≤ s.clock + d := by omega
    have hinv := historyInv_step s (.tick d) _ h.inv rfl
    have hinv' := historyInv_step s' (.tick d) _ h.inv' rfl
    refine ⟨_, rfl, { h with inv := hinv, inv' := hinv', clock := ?_, rows := ?_ }⟩
    · show s'.clock + d = s.clock + d
      rw [h.clock]
    · show visible (s.clock + d) s'.tuples.rows = visible (s.clock + d) s.tuples.rows
      rw [visible_of_le hle s'.tuples.rows, h.rows, ← visible_of_le hle]
  | transact ops by_ =>
    obtain ⟨s₁', hs', hnext⟩ := h.toHides.applyOps hok hs
    refine ⟨s₁', hs', h.next hnext (h.inv.applyOps hs).2 (fun t ht => logsLater_applyOps ht hs) ?_⟩
    exact fun t ht => logsLater_applyOps (h.clock.symm ▸ ht) hs'

/-- A clean-up in the second history. -/
theorem Unseen.cleanups (h : Unseen store s s') {ops : List StoreOp} (hops : ∀ op ∈ ops, CleansUp store op)
    (by_ : String) :
    ∃ s₁', historyStep store s' (.transact ops by_) = some s₁' ∧ Unseen store s s₁' := by
  obtain ⟨s₁', hs', hnext⟩ := h.toHides.cleanups by_ hops
  refine ⟨s₁', hs', h.next hnext rfl (fun t _ => .refl t s) ?_⟩
  exact fun t ht => logsLater_applyOps (h.clock.symm ▸ ht) hs'

/-- Histories that differ in clean-ups stay alike. -/
theorem Unseen.run {es es' : List HistoryEvent} (hc : WithCleanups store es es') (h : Unseen store s s')
    (hok : Along (historyStep store) (Proper store) s es)
    (hs : Transition.run (historyStep store) s es = some s₁) :
    ∃ s₁', Transition.run (historyStep store) s' es' = some s₁' ∧ Unseen store s₁ s₁' := by
  induction hc generalizing s s' with
  | nil =>
    cases hs
    exact ⟨s', rfl, h⟩
  | event e hc ih =>
    obtain ⟨s₂, h₂, hs⟩ := run_cons.mp hs
    obtain ⟨s₂', h₂', hnext⟩ := h.event hok.1 h₂
    obtain ⟨s₁', h₁', hend⟩ := ih hnext (hok.2 s₂ h₂) hs
    exact ⟨s₁', run_cons.mpr ⟨s₂', h₂', h₁'⟩, hend⟩
  | cleanup ops by_ hops hc ih =>
    obtain ⟨s₂', h₂', hnext⟩ := h.cleanups hops by_
    obtain ⟨s₁', h₁', hend⟩ := ih hnext hok hs
    exact ⟨s₁', run_cons.mpr ⟨s₂', h₂', h₁'⟩, hend⟩

/-- The check reads the same. -/
theorem Hides.checkAccessAt (h : Hides store s s') (sess : Session) (req : AccessRequest)
    (ht : s.clock ≤ t) : s'.checkAccessAt sess req t = s.checkAccessAt sess req t := by
  have henv : s'.checkEnv sess req t = s.checkEnv sess req t := by
    unfold HistoryState.checkEnv
    rw [h.conditions, h.models, visible_of_le ht s'.tuples.rows, h.rows, ← visible_of_le ht]
  unfold HistoryState.checkAccessAt
  rw [henv]

/-- **Nothing tells that expired rows were cleaned up**: with clean-ups put in anywhere, a history goes
through as without them, every check from then on decides alike, and the snapshots of every instant hold the
same rules, conditions and tuples. -/
theorem cleanups_unseen {start : ℤ} {es es' : List HistoryEvent} (hc : WithCleanups store es es')
    (hok : Along (historyStep store) (Proper store) (HistoryState.init start) es)
    (hs : run (historyStep store) (HistoryState.init start) es = some s) :
    ∃ s', run (historyStep store) (HistoryState.init start) es' = some s' ∧
      (∀ sess req t, s.clock ≤ t → s'.checkAccessAt sess req t = s.checkAccessAt sess req t) ∧
      ∀ t, buildModelSnapshot s'.models.log t = buildModelSnapshot s.models.log t ∧
        buildConditionSnapshot s'.conditions.log t = buildConditionSnapshot s.conditions.log t ∧
        ∀ a, a ∈ buildAuditSnapshot s'.tuples.log store none t ↔
          a ∈ buildAuditSnapshot s.tuples.log store none t := by
  obtain ⟨s', hs', h⟩ := (Unseen.init store start).run hc hok hs
  refine ⟨s', hs', fun sess req t ht => h.checkAccessAt sess req ht, fun t => ⟨?_, ?_, h.snapshots t⟩⟩
  · rw [h.models]
  · rw [h.conditions]

/-- The document of the demonstrations, granted to Ann until an instant if one is given. -/
def annGrant (expiresAt : Option ℤ) : Tuple := ⟨3, "ann", none, 1, 1, "doc", none, none, expiresAt⟩

/-- A grant until 20 that runs out, is cleaned up and is granted again. -/
def grantedAgain (cleanup : List HistoryEvent) : List HistoryEvent :=
  .transact [.addRule ⟨1, 1, .direct, 0, .or, false⟩, .tuple (.upsert 7 (annGrant (some 20)))] "app" ::
    .tick 29 :: (cleanup ++ [.transact [.tuple (.regrant 7 (annGrant none))] "app"])

/-- The clean-up of the grant. -/
def cleanedUp : List HistoryEvent :=
  [.transact [.tuple (.cleanup ((annGrant none).rowKey 7) 5)] "cron"]

theorem cleanups_unseen_grantedAgain : ∃ s s',
    run (historyStep 7) (HistoryState.init 1) (grantedAgain []) = some s ∧
    run (historyStep 7) (HistoryState.init 1) (grantedAgain cleanedUp) = some s' ∧
    s'.checkAccessAt plainSession (annAsks none) 30 = s.checkAccessAt plainSession (annAsks none) 30 := by
  have hruns : (run (historyStep 7) (HistoryState.init 1) (grantedAgain [])).map (fun s =>
      (decide (s.clock ≤ 30), decide (Along (historyStep 7) (Proper 7) (HistoryState.init 1)
        (grantedAgain [])))) = some (true, true) := by decide +kernel
  obtain ⟨s, hs, heq⟩ := Option.map_eq_some_iff.mp hruns
  obtain ⟨hclock, hok⟩ := Prod.mk.inj heq
  have hc : WithCleanups 7 (grantedAgain []) (grantedAgain cleanedUp) := by
    refine .event _ (.event _ (.cleanup _ _ ?_ (.event _ .nil)))
    refine List.forall_mem_singleton.mpr ⟨_, 5, rfl, rfl, by decide⟩
  obtain ⟨s', hs', hchecks, -⟩ := cleanups_unseen hc (of_decide_eq_true hok) hs
  exact ⟨s, s', hs, hs', hchecks plainSession (annAsks none) 30 (of_decide_eq_true hclock)⟩

/-- **A batch tells whether an expired row with a condition was cleaned up**: without the clean-up it takes
the expiry of the row away and keeps the condition, and with it grants unconditionally. -/
theorem batch_sees_cleanup : ∃ s s',
    run (historyStep 7) (HistoryState.init 1) (grantHistory "eu" ++
      [.tick 29, .transact [.tuple (.regrant 7 (annGrant none))] "app"]) = some s ∧
    run (historyStep 7) (HistoryState.init 1) (grantHistory "eu" ++
      [.tick 29] ++ cleanedUp ++ [.transact [.tuple (.regrant 7 (annGrant none))] "app"]) = some s' ∧
    s.checkAccessAt plainSession (annAsks (some [("region", "us")])) 30 = .ok false ∧
    s'.checkAccessAt plainSession (annAsks (some [("region", "us")])) 30 = .ok true := by
  have hkept : (run (historyStep 7) (HistoryState.init 1) (grantHistory "eu" ++
      [.tick 29, .transact [.tuple (.regrant 7 (annGrant none))] "app"])).map (fun s =>
        s.checkAccessAt plainSession (annAsks (some [("region", "us")])) 30) = some (.ok false) := by
    decide +kernel
  have hgone : (run (historyStep 7) (HistoryState.init 1) (grantHistory "eu" ++
      [.tick 29] ++ cleanedUp ++ [.transact [.tuple (.regrant 7 (annGrant none))] "app"])).map (fun s =>
        s.checkAccessAt plainSession (annAsks (some [("region", "us")])) 30) = some (.ok true) := by
    decide +kernel
  obtain ⟨s, hs, hdenied⟩ := Option.map_eq_some_iff.mp hkept
  obtain ⟨s', hs', hallowed⟩ := Option.map_eq_some_iff.mp hgone
  exact ⟨s, s', hs, hs', hdenied, hallowed⟩

end PgAuthz
