import PgAuthz.Store.Schema

/-!
# Rows of rules

The table `authz.models` and what is tested when a row is written: the operator test of
`model_add_rule`, and the row trigger, which allows negated rules in exclusion groups only and has
every group with a negated rule keep one that is not.

## Main definitions

* `Row`, `Key`, `GroupKey`: a row of the table, its unique key, and the group it belongs to
* `usesOtherOp`, `validRow`, `groupHasBase`: the tests
* `addRule`: `model_add_rule` on a table
* `Accepted rows`: the table after calls of `model_add_rule`
* `Uniform`, `Based`: the rules of a group carry one operator, and a negated rule is not alone

## Main results

* `Accepted.uniform`, `Accepted.based`, `Accepted.valid`: an accepted table is in order
-/

namespace PgAuthz.RuleRows

/-- A group: the rules of a relation on a type of a store under one group id. -/
structure GroupKey where
  storeId : ℕ
  objectType : ℕ
  relation : ℕ
  groupId : ℤ
deriving DecidableEq, Repr

/-- The columns of `idx_models_unique`: the rule and its group, without the operator. -/
structure Key where
  group : GroupKey
  body : RuleBody
  negated : Bool
deriving DecidableEq, Repr

/-- A row of `authz.models`. -/
structure Row where
  id : ℕ
  storeId : ℕ
  rule : Rule
  allowObjectWildcard : Bool
deriving DecidableEq, Repr

namespace Row

/-- The group of a row. -/
def group (m : Row) : GroupKey := ⟨m.storeId, m.rule.objectType, m.rule.relation, m.rule.groupId⟩

/-- The unique key of a row. -/
def key (m : Row) : Key := ⟨m.group, m.rule.body, m.rule.negated⟩

/-- A row takes the flag of the row that is inserted under its key. -/
def withFlag (m : Row) (allowObjectWildcard : Bool) : Row := { m with allowObjectWildcard }

@[simp] theorem withFlag_rule (m : Row) (b : Bool) : (m.withFlag b).rule = m.rule := rfl

@[simp] theorem withFlag_group (m : Row) (b : Bool) : (m.withFlag b).group = m.group := rfl

@[simp] theorem withFlag_key (m : Row) (b : Bool) : (m.withFlag b).key = m.key := rfl

theorem group_eq_of_key {m m' : Row} (h : m.key = m'.key) : m.group = m'.group :=
  congrArg Key.group h

theorem negated_eq_of_key {m m' : Row} (h : m.key = m'.key) : m.rule.negated = m'.rule.negated :=
  congrArg Key.negated h

end Row

/-! ## The tests -/

/-- A rule of the group has another operator. -/
def usesOtherOp (rows : List Row) (r : Row) : Bool :=
  rows.any fun m => m.group = r.group && m.rule.groupOp ≠ r.rule.groupOp

/-- `_validate_model_group` on the new row alone. -/
def validRow (r : Row) : Bool :=
  (!r.rule.negated || r.rule.groupOp = .exclusion) && (!r.allowObjectWildcard || r.rule.body = .direct)

/-- `_check_exclusion_group_has_base` returns: the group has no negated rule, or one that is not. -/
def groupHasBase (rows : List Row) (g : GroupKey) : Bool :=
  !(rows.any fun m => m.group = g && m.rule.negated) || rows.any fun m => m.group = g && !m.rule.negated

/-- The row that the insert of `r` writes: the row under its key with the new flag, or else `r`. -/
def written (rows : List Row) (r : Row) : Row :=
  match rows.find? fun m => m.key = r.key with
  | some m => m.withFlag r.allowObjectWildcard
  | none => r

/-- The rows after a row is written under its key. -/
def put (rows : List Row) (r : Row) : List Row := (rows.filter fun m => m.key ≠ r.key) ++ [r]

/-- `model_add_rule`. -/
def addRule (rows : List Row) (r : Row) : Option (List Row) :=
  if r.allowObjectWildcard && r.rule.body ≠ .direct then none
  else if usesOtherOp rows r then none
  else if !validRow (written rows r) then none
  else
    -- the trigger runs after the statement and sees the row
    let rows' := put rows (written rows r)
    if groupHasBase rows' r.group then some rows' else none

/-- The table after calls of `model_add_rule`. -/
def Accepted (rows : List Row) : Prop := ∃ calls : List Row, calls.foldlM addRule [] = some rows

/-! ## Tables in order -/

/-- The rules of a group carry the same operator. -/
def Uniform (rows : Set Row) : Prop :=
  ∀ m ∈ rows, ∀ m' ∈ rows, m.group = m'.group → m.rule.groupOp = m'.rule.groupOp

/-- A group with a negated rule has one that is not. -/
def Based (rows : Set Row) (g : GroupKey) : Prop :=
  (∃ m ∈ rows, m.group = g ∧ m.rule.negated = true) → ∃ b ∈ rows, b.group = g ∧ b.rule.negated = false

theorem groupHasBase_iff {rows : List Row} {g : GroupKey} :
    groupHasBase rows g = true ↔ Based {m | m ∈ rows} g := by
  simp only [groupHasBase, Based, Bool.or_eq_true, Bool.not_eq_true', List.any_eq_true, Bool.and_eq_true,
    decide_eq_true_eq, ← Bool.not_eq_true, Set.mem_ofPred_eq]
  exact imp_iff_not_or.symm

theorem usesOtherOp_eq_false_iff {rows : List Row} {r : Row} :
    usesOtherOp rows r = false ↔ ∀ m ∈ rows, m.group = r.group → m.rule.groupOp = r.rule.groupOp := by
  simp [usesOtherOp]

theorem mem_put {rows : List Row} {r m : Row} : m ∈ put rows r ↔ m ∈ rows ∧ m.key ≠ r.key ∨ m = r := by
  simp [put]

/-- The row that an insert writes has the key of the inserted row, and is new or keeps the rule of the
row that was there. -/
theorem written_cases (rows : List Row) (r : Row) :
    (∃ m ∈ rows, m.key = r.key ∧ written rows r = m.withFlag r.allowObjectWildcard) ∨
      (∀ m ∈ rows, m.key ≠ r.key) ∧ written rows r = r := by
  unfold written
  cases hfind : rows.find? fun m => m.key = r.key with
  | some m =>
    have hkey : m.key = r.key := by simpa using List.find?_some hfind
    exact .inl ⟨m, List.mem_of_find?_eq_some hfind, hkey, rfl⟩
  | none => exact .inr ⟨by simpa using List.find?_eq_none.mp hfind, rfl⟩

theorem written_key (rows : List Row) (r : Row) : (written rows r).key = r.key := by
  rcases written_cases rows r with ⟨m, -, hkey, h⟩ | ⟨-, h⟩
  · rw [h, Row.withFlag_key, hkey]
  · rw [h]

/-- The row that is written carries the operator of its group. -/
theorem written_groupOp {rows : List Row} {r : Row} (hop : usesOtherOp rows r = false) :
    (written rows r).rule.groupOp = r.rule.groupOp := by
  rcases written_cases rows r with ⟨m, hm, hkey, h⟩ | ⟨-, h⟩
  · rw [h, Row.withFlag_rule]
    exact usesOtherOp_eq_false_iff.mp hop m hm (Row.group_eq_of_key hkey)
  · rw [h]

/-- What a call of `model_add_rule` that returns has tested and written. -/
theorem addRule_eq_some_iff {rows rows' : List Row} {r : Row} :
    addRule rows r = some rows' ↔ (r.allowObjectWildcard && r.rule.body ≠ .direct) = false ∧
      usesOtherOp rows r = false ∧ validRow (written rows r) = true ∧
      groupHasBase (put rows (written rows r)) r.group = true ∧ rows' = put rows (written rows r) := by
  rw [addRule]
  by_cases hflag : (r.allowObjectWildcard && r.rule.body ≠ .direct) = true
  · rw [if_pos hflag]
    exact iff_of_false nofun fun h => Bool.false_ne_true (h.1.symm.trans hflag)
  rw [if_neg hflag]
  by_cases hop : usesOtherOp rows r = true
  · rw [if_pos hop]
    exact iff_of_false nofun fun h => Bool.false_ne_true (h.2.1.symm.trans hop)
  rw [if_neg hop]
  by_cases hvalid : validRow (written rows r) = true
  · rw [if_neg (by simp [hvalid])]
    dsimp only
    constructor
    · intro h
      split at h
      · rename_i hbase
        exact ⟨Bool.eq_false_iff.mpr hflag, Bool.eq_false_iff.mpr hop, hvalid, hbase, (Option.some.inj h).symm⟩
      · cases h
    · rintro ⟨-, -, -, hbase, rfl⟩
      rw [if_pos hbase]
  · rw [if_pos (by simp [hvalid])]
    exact iff_of_false nofun fun h => hvalid h.2.2.1

/-- The rules of a table are in order. -/
structure InOrder (rows : List Row) : Prop where
  uniform : Uniform {m | m ∈ rows}
  based : ∀ g, Based {m | m ∈ rows} g
  valid : ∀ m ∈ rows, validRow m = true

/-- **A call of `model_add_rule` keeps the table in order.** -/
theorem InOrder.addRule {rows rows' : List Row} {r : Row} (h : InOrder rows)
    (hadd : addRule rows r = some rows') : InOrder rows' := by
  obtain ⟨-, hop, hvalid, hbase, rfl⟩ := addRule_eq_some_iff.mp hadd
  have hgroup : (written rows r).group = r.group := Row.group_eq_of_key (written_key rows r)
  have hsame : ∀ m ∈ rows, m.group = (written rows r).group →
      m.rule.groupOp = (written rows r).rule.groupOp := fun m hm hg => by
    rw [written_groupOp hop]
    exact usesOtherOp_eq_false_iff.mp hop m hm (hg.trans hgroup)
  refine ⟨?_, fun g => ?_, ?_⟩
  · intro m hm m' hm' hg
    rcases mem_put.mp hm with ⟨hm, -⟩ | rfl <;> rcases mem_put.mp hm' with ⟨hm', -⟩ | rfl
    · exact h.uniform m hm m' hm' hg
    · exact hsame m hm hg
    · exact (hsame m' hm' hg.symm).symm
    · rfl
  · by_cases hg : g = r.group
    · exact hg ▸ groupHasBase_iff.mp hbase
    · -- the rows of another group are the ones they were
      rintro ⟨m, hm, hmg, hneg⟩
      have hold : m ∈ rows := by
        rcases mem_put.mp hm with ⟨hm, -⟩ | rfl
        · exact hm
        · exact absurd (hmg.symm.trans hgroup) hg
      obtain ⟨b, hb, hbg, hadd⟩ := h.based g ⟨m, hold, hmg, hneg⟩
      refine ⟨b, mem_put.mpr (.inl ⟨hb, fun hkey => hg ?_⟩), hbg, hadd⟩
      rw [← hbg, Row.group_eq_of_key hkey, hgroup]
  · intro m hm
    rcases mem_put.mp hm with ⟨hm, -⟩ | rfl
    · exact h.valid m hm
    · exact hvalid

theorem inOrder_nil : InOrder [] where
  uniform _ hm := absurd hm List.not_mem_nil
  based _ := fun ⟨_, hm, _⟩ => absurd hm List.not_mem_nil
  valid _ hm := absurd hm List.not_mem_nil

/-- **An accepted table is in order.** -/
theorem Accepted.inOrder {rows : List Row} (h : Accepted rows) : InOrder rows := by
  obtain ⟨calls, hcalls⟩ := h
  have hrun : ∀ {rows₀ : List Row}, InOrder rows₀ → calls.foldlM RuleRows.addRule rows₀ = some rows →
      InOrder rows := by
    clear hcalls
    induction calls with
    | nil =>
      intro rows₀ h₀ hcalls
      cases hcalls
      exact h₀
    | cons r calls ih =>
      intro rows₀ h₀ hcalls
      rw [List.foldlM_cons] at hcalls
      obtain ⟨rows₁, hadd, hcalls⟩ := Option.bind_eq_some_iff.mp hcalls
      exact ih (h₀.addRule hadd) hcalls
  exact hrun inOrder_nil hcalls

/-- The rules of a store, in the order of the table. -/
def storeRules (rows : List Row) (storeId : ℕ) : List Rule :=
  (rows.filter fun m => m.storeId = storeId).map Row.rule

/-- The rules of a relation, in the order of the table. -/
def rulesOf (rows : List Row) (storeId objectType relation : ℕ) : List Rule :=
  (storeRules rows storeId).filter fun ρ => ρ.objectType = objectType ∧ ρ.relation = relation

theorem mem_storeRules {rows : List Row} {s : ℕ} {ρ : Rule} :
    ρ ∈ storeRules rows s ↔ ∃ m ∈ rows, m.storeId = s ∧ m.rule = ρ := by
  simp [storeRules, and_assoc]

theorem mem_rulesOf_iff {rows : List Row} {s T r : ℕ} {ρ : Rule} :
    ρ ∈ rulesOf rows s T r ↔ ρ ∈ storeRules rows s ∧ ρ.objectType = T ∧ ρ.relation = r := by
  simp [rulesOf]

end PgAuthz.RuleRows
