import PgAuthz.Engine.Polarity

/-!
# Conditions that cannot be evaluated

A condition whose required keys are missing, and a condition that raises, is NULL or was deleted. A
check fails closed if it allows only where it would allow whichever way these conditions turned out.

Under the switch on, a condition with missing keys passes. Under the switch off its expression is
evaluated on the incomplete context, and if it evaluates to true, the tuple grants. A condition that
raises, is NULL or is unknown does not pass under either switch; below an odd number of negated
rules, where a tuple that does not match denies nothing, the check fails open.

## Main definitions

* `missesContext`, `unevaluable`: the two kinds of conditions
* `Outcome`: conditions that turn out one way or the other
* `NotDeniedUnderOutcomes`: a check that allows is not denied however these conditions turn out
* `ReadAsBan`: a tuple that is read below an odd number of negated rules

## Main results

* `missing_context_never_grants_iff`: exactly if no condition evaluates to true on a context that
  misses one of its keys
* `unevaluable_fails_closed_iff`: exactly if the conditions of the tuples that are read under the
  flipped switch can be evaluated
-/

namespace PgAuthz

open Resolution
open Relation (ReflTransGen)

/-! ## The two kinds of conditions -/

/-- A required key of the condition is in neither of the two contexts. -/
def missesContext (cond : ConditionEnv) (conditionId : Option ℕ) (stored : Option Context) : Bool :=
  conditionId.any fun id => (cond.conditions.find? fun c => c.id = id).any fun c =>
    !(conditionMissingKeys c stored
      (conditionRequest cond.platform cond.evalClock c cond.requestContext)).isEmpty

/-- The condition was deleted, or its expression raises or is NULL. -/
def unevaluable (cond : ConditionEnv) (conditionId : Option ℕ) (stored : Option Context) : Bool :=
  match conditionId with
  | none => false
  | some id =>
    match cond.conditions.find? fun c => c.id = id with
    | none => true
    | some c =>
      let request := conditionRequest cond.platform cond.evalClock c cond.requestContext
      !oversized cond.platform cond.maxContextBytes request &&
        !oversized cond.platform cond.maxContextBytes stored &&
        (cond.platform.exec c.lang c.expression (request.getD []) (stored.getD []) = .failed ||
          cond.platform.exec c.lang c.expression (request.getD []) (stored.getD []) = .value none)

/-- The conditions `cond'` are those of `cond`, where the ones of `taken` turn out as `σ` says. -/
structure Outcome (tuples : List Tuple) (cond cond' : ConditionEnv) (taken : Tuple → Prop)
    (σ : Tuple → Bool) : Prop where
  settled : ∀ t ∈ tuples, taken t → ∀ a,
    evalCondition cond' a t.conditionId t.conditionContext = .ok (σ t)
  kept : ∀ t ∈ tuples, ¬ taken t → ∀ a,
    evalCondition cond' a t.conditionId t.conditionContext =
      evalCondition cond a t.conditionId t.conditionContext

/-- A check of the store that allows under `cond` is not denied however the conditions of `taken`
turn out. -/
def NotDeniedUnderOutcomes (env : CheckEnv) (root : Question) (cond : ConditionEnv)
    (taken : Tuple → Prop) : Prop :=
  ∀ cond' σ, Outcome env.tuples cond cond' taken σ → ∀ maxDepth maxDepth' mode mode',
    PlainMemo env root mode → PlainMemo env root mode' →
    checkAccess (env.withConditions cond) maxDepth mode root = .ok true →
    checkAccess (env.withConditions cond') maxDepth' mode' root ≠ .ok false

theorem evalCondition_of_missesContext {cond : ConditionEnv} {id : Option ℕ}
    {stored : Option Context} (h : missesContext cond id stored = true) :
    evalCondition cond true id stored = .ok true := by
  cases id with
  | none => cases h
  | some id =>
    unfold evalCondition
    cases hc : cond.conditions.find? fun c => c.id = id with
    | none => simp [missesContext, hc] at h
    | some c =>
      simp only [missesContext, Option.any_some, hc, Bool.not_eq_true', List.isEmpty_eq_false_iff] at h
      simp only [hc, h, ne_eq, not_false_eq_true, and_self, if_true]

theorem evalCondition_of_unevaluable {cond : ConditionEnv} {id : Option ℕ}
    {stored : Option Context} (h : unevaluable cond id stored = true) (a : Bool)
    (hmiss : (a && missesContext cond id stored) = false) :
    evalCondition cond a id stored = .ok false := by
  cases id with
  | none => cases h
  | some id =>
    unfold unevaluable at h
    unfold evalCondition
    cases hc : cond.conditions.find? fun c => c.id = id with
    | none => simp [hc]
    | some c =>
      simp only [hc, Bool.and_eq_true, Bool.or_eq_true, decide_eq_true_eq, Bool.not_eq_true'] at h
      obtain ⟨⟨hreq, hsto⟩, hexec⟩ := h
      dsimp only
      simp only [hc]
      rw [if_neg, if_neg]
      · unfold evalConditionExpr
        rcases hexec with hexec | hexec
        · rw [hexec]
        · rw [hexec]
          rfl
      · simp [hreq, hsto]
      · rintro ⟨rfl, hkeys⟩
        simp [missesContext, hc] at hmiss
        exact hkeys hmiss

/-! ## Stores that tell the conditions apart -/

/-- Ann has the relation 1 of a document under a condition, and the relation 2 without one. -/
def conditionalTuples (id : Option ℕ) (stored : Option Context) : List Tuple :=
  [⟨2, "ann", none, 1, 1, "doc", id, stored, none⟩, ⟨2, "ann", none, 2, 1, "doc", none, none, none⟩]

/-- A store with these tuples, in which Ann is checked. -/
def conditionStore (rules : List Rule) (id : Option ℕ) (stored : Option Context) : CheckEnv where
  platform := ⟨fun _ _ _ _ => .failed, fun _ => 0, fun _ => ""⟩
  maxContextBytes := 0
  conditions := []
  evalClock := 0
  requestContext := none
  rules := rules
  tuples := conditionalTuples id stored
  ctxTuples := []
  hasCtxTuples := false
  exclude := none
  userType := 2
  userId := "ann"

/-- The relation 1 is granted by its tuples. -/
def grantRules : List Rule := [⟨1, 1, .direct, 0, .or, false⟩]

/-- The relation 2 is granted by its tuples, and the relation 3 is the relation 2 but not the
relation 1. -/
def banRules : List Rule :=
  [⟨1, 1, .direct, 0, .or, false⟩, ⟨1, 2, .direct, 0, .or, false⟩,
    ⟨1, 3, .computed 2, 0, .exclusion, false⟩, ⟨1, 3, .computed 1, 0, .exclusion, true⟩]

/-- A relation of the document. -/
def docQuestion (relation : ℕ) (assume : Bool) : Question := ⟨⟨relation, 1, "doc"⟩, assume⟩

/-- Conditions that all turn out as `b`. -/
def allConditions (id : ℕ) (b : Bool) : ConditionEnv where
  platform := ⟨fun _ _ _ _ => .value (some b), fun _ => 0, fun _ => ""⟩
  maxContextBytes := 0
  conditions := [⟨id, "", .sql, [], [], .caller⟩]
  evalClock := 0
  requestContext := none

theorem evalCondition_allConditions (id : ℕ) (b a : Bool) (stored : Option Context) :
    evalCondition (allConditions id b) a (some id) stored = .ok b := by
  cases stored <;>
    simp [evalCondition, allConditions, conditionMissingKeys, missingKeysOf, conditionRequest,
      oversized, evalConditionExpr]

section Stores

variable {cond : ConditionEnv} {rules : List Rule} {id : ℕ} {stored : Option Context} {a b : Bool}

/-- The conditional tuple grants the relation 1 if its condition passes. -/
theorem evalDirect_conditional (h : evalCondition cond a (some id) stored = .ok b) :
    evalDirect ((conditionStore rules (some id) stored).withConditions cond) (docQuestion 1 a) =
      .done b := by
  cases b <;>
    simp [evalDirect, conditionStore, conditionalTuples, docQuestion, CheckEnv.withConditions,
      probeUnless, skipDirect, skipWildcard, probe, directRow, wildcard, followRows, followCtxRows,
      usersetNode, Walk.any, Walk.lift, h]

/-- The other tuple grants the relation 2. -/
theorem evalDirect_unconditional :
    evalDirect ((conditionStore rules (some id) stored).withConditions cond) (docQuestion 2 a) =
      .done true := by
  simp [evalDirect, conditionStore, conditionalTuples, docQuestion, CheckEnv.withConditions,
    probeUnless, skipDirect, probe, directRow]

/-- A relation that is granted by its tuples. -/
theorem search_direct {r f : ℕ} {P : List Question}
    (hrules : orderedRules rules 1 r = [⟨1, r, .direct, 0, .or, false⟩])
    (hP : pathKey (docQuestion r a).node ∉ P.map fun q => pathKey q.node)
    (h : evalDirect ((conditionStore rules (some id) stored).withConditions cond) (docQuestion r a) =
      .done b) :
    searchUnder (conditionStore rules (some id) stored) cond (f + 1) P (docQuestion r a) = .ok b := by
  rw [searchUnder, search_open hP]
  have hbody : checkAccessImpl ((conditionStore rules (some id) stored).withConditions cond)
      (docQuestion r a) = .done b := by
    show evalGroups _ _ _ (orderedRules rules 1 r) = _
    rw [hrules]
    cases b <;>
      simp [evalGroups, GroupState.init, GroupState.finalizes, GroupState.start, evalRule, h]
  rw [hbody]
  rfl

/-- The check of the relation 1 ends as the condition does. -/
theorem checkAccess_grant (h : evalCondition cond false (some id) stored = .ok b) :
    checkAccess ((conditionStore grantRules (some id) stored).withConditions cond) 3 .off
      (docQuestion 1 false) = .ok b := by
  rw [checkAccess_off]
  show searchUnder (conditionStore grantRules (some id) stored) cond 4 [] (docQuestion 1 false) = _
  exact search_direct (by decide) (by simp) (evalDirect_conditional h)

/-- The check of the relation 3 ends against the condition under the switch on. -/
theorem checkAccess_ban (h : evalCondition cond true (some id) stored = .ok b) :
    checkAccess ((conditionStore banRules (some id) stored).withConditions cond) 3 .off
      (docQuestion 3 false) = .ok !b := by
  rw [checkAccess_off]
  show searchUnder (conditionStore banRules (some id) stored) cond 4 [] (docQuestion 3 false) = _
  have hbase : searchUnder (conditionStore banRules (some id) stored) cond 3 [docQuestion 3 false]
      (docQuestion 2 false) = .ok true :=
    search_direct (by decide) (by decide) evalDirect_unconditional
  have hban : searchUnder (conditionStore banRules (some id) stored) cond 3 [docQuestion 3 false]
      (docQuestion 1 true) = .ok b :=
    search_direct (by decide) (by decide) (evalDirect_conditional h)
  rw [searchUnder, search_open (by simp)]
  have hbody : checkAccessImpl ((conditionStore banRules (some id) stored).withConditions cond)
      (docQuestion 3 false) = .ask (docQuestion 2 false) fun base => if base then
        .ask (docQuestion 1 true) fun ban => .done !ban else .done false := by
    refine congrArg (Walk.ask _) (funext fun base => ?_)
    cases base with
    | false => rfl
    | true =>
      refine congrArg (Walk.ask _) (funext fun ban => ?_)
      cases ban <;> rfl
  rw [searchUnder] at hbase hban
  simp only [hbody, Walk.eval_ask, hbase, hban, if_true, Walk.eval_done]

end Stores

/-- In these stores the one condition can turn out either way. -/
theorem outcome_allConditions (cond : ConditionEnv) (id : ℕ) (stored : Option Context) (b : Bool)
    {taken : Option ℕ → Option Context → Bool} (h : taken (some id) stored = true)
    (hnone : taken none none = false) :
    Outcome (conditionalTuples (some id) stored) cond (allConditions id b)
      (fun t => taken t.conditionId t.conditionContext = true) fun _ => b where
  settled t ht htaken a := by
    simp only [conditionalTuples, List.mem_cons, List.not_mem_nil, or_false] at ht
    rcases ht with rfl | rfl
    · exact evalCondition_allConditions id b a stored
    · exact absurd (hnone.symm.trans htaken) Bool.false_ne_true
  kept t ht hkept a := by
    simp only [conditionalTuples, List.mem_cons, List.not_mem_nil, or_false] at ht
    rcases ht with rfl | rfl
    · exact absurd h hkept
    · rfl

/-! ## Missing context -/

/-- A tuple with a condition that misses a key of its context. -/
def MissesContext (cond : ConditionEnv) (t : Tuple) : Prop :=
  missesContext cond t.conditionId t.conditionContext = true

/-- **Missing context never grants**, in any store, exactly if no condition evaluates to true on
contexts that miss one of its keys. A condition that is read below an odd number of negated rules
passes in any case. -/
theorem missing_context_never_grants_iff (cond : ConditionEnv) :
    (∀ id stored, missesContext cond id stored = true → evalCondition cond true id stored = .ok true) ∧
    ((∀ env root, root.assume = false →
        NotDeniedUnderOutcomes env root cond (MissesContext cond)) ↔
      ∀ id stored, missesContext cond id stored = true →
        evalCondition cond false id stored ≠ .ok true) := by
  refine ⟨fun id stored => evalCondition_of_missesContext, ?_, ?_⟩
  · intro h id stored hmiss hpass
    obtain ⟨i, rfl⟩ : ∃ i, id = some i := by
      cases id with
      | none => cases hmiss
      | some i => exact ⟨i, rfl⟩
    -- the tuple grants, and does not if its condition turns out false
    refine h (conditionStore grantRules (some i) stored) (docQuestion 1 false) rfl
      (allConditions i false) _ (outcome_allConditions cond i stored false hmiss rfl) 3 3
      .off .off (.inl rfl) (.inl rfl) (checkAccess_grant hpass) ?_
    exact checkAccess_grant (evalCondition_allConditions i false false stored)
  · intro hnever env root hroot cond' σ ho maxDepth maxDepth' mode mode' hm hm' hallow
    refine checkAccess_favoured hroot ?_ hm hm' hallow
    intro q _ ρ _ r _ t ht _
    by_cases hmiss : MissesContext cond t
    · refine ⟨fun _ hpass => absurd hpass (hnever _ _ hmiss), fun _ _ => ?_⟩
      exact evalCondition_of_missesContext hmiss
    · refine ⟨fun _ hpass => ?_, fun _ hpass => ?_⟩
      · exact (ho.kept t ht hmiss false).trans hpass
      · exact (ho.kept t ht hmiss true).symm.trans hpass

/-- The condition `coalesce($1->>'country', '') <> 'XX'`, which requires the key `country`. -/
def countryConditions (request : Option Context) : ConditionEnv where
  platform :=
    { exec := fun _ _ request _ => .value (some (request.lookup "country" ≠ some "XX"))
      columnSize := fun _ => 0
      toChar := fun _ => "" }
  maxContextBytes := 65536
  conditions := [⟨7, "coalesce($1->>'country', '') <> 'XX'", .sql, ["country"], [], .caller⟩]
  evalClock := 0
  requestContext := request

/-- Without the country the condition grants, and with the country `XX` it does not. -/
theorem country_condition_grants_on_missing :
    ¬ NotDeniedUnderOutcomes (conditionStore grantRules (some 7) none) (docQuestion 1 false)
      (countryConditions none) (MissesContext (countryConditions none)) := by
  intro h
  refine h (countryConditions (some [("country", "XX")])) (fun _ => false) ⟨?_, ?_⟩ 3 3 .off .off
    (.inl rfl) (.inl rfl) (checkAccess_grant (by decide)) (checkAccess_grant (by decide))
  · intro t ht hmiss a
    simp only [conditionStore, conditionalTuples, List.mem_cons, List.not_mem_nil, or_false] at ht
    rcases ht with rfl | rfl
    · cases a <;> decide
    · cases hmiss
  · intro t ht hmiss a
    simp only [conditionStore, conditionalTuples, List.mem_cons, List.not_mem_nil, or_false] at ht
    rcases ht with rfl | rfl
    · refine absurd ?_ hmiss
      show missesContext _ _ _ = true
      decide
    · rfl

/-! ## Conditions that cannot be evaluated -/

/-- A tuple whose condition was deleted, raises or is NULL. -/
def Unevaluable (cond : ConditionEnv) (t : Tuple) : Prop :=
  unevaluable cond t.conditionId t.conditionContext = true

/-- A conditional tuple that the check can read below an odd number of negated rules. -/
def ReadAsBan (env : CheckEnv) (root : Question) (t : Tuple) : Prop :=
  t ∈ env.tuples ∧ t.conditionId ≠ none ∧ ∃ q, ReflTransGen (MayDependOn env) root q ∧
    ∃ ρ ∈ orderedRules env.rules q.node.objectType q.node.relation, ∃ r, ReadAs env q ρ r ∧
      r.assume = true ∧ Reads env q.node t ρ.body

/-- **Conditions that cannot be evaluated fail closed**, in every store that bans under the conditions
`Bans` only, exactly if each of these conditions can be evaluated or misses a key of its context. -/
theorem unevaluable_fails_closed_iff (cond : ConditionEnv)
    (Bans : Option ℕ → Option Context → Prop) :
    (∀ env root, root.assume = false →
        (∀ t, ReadAsBan env root t → Bans t.conditionId t.conditionContext) →
        NotDeniedUnderOutcomes env root cond (Unevaluable cond)) ↔
      ∀ id stored, Bans id stored → unevaluable cond id stored = true →
        missesContext cond id stored = true := by
  constructor
  · intro h id stored hbans hun
    by_contra hmiss
    obtain ⟨i, rfl⟩ : ∃ i, id = some i := by
      cases id with
      | none => cases hun
      | some i => exact ⟨i, rfl⟩
    have hfalse : evalCondition cond true (some i) stored = .ok false :=
      evalCondition_of_unevaluable hun true (by simpa using hmiss)
    -- the ban does not match, and matches if its condition turns out true
    refine h (conditionStore banRules (some i) stored) (docQuestion 3 false) rfl ?_
      (allConditions i true) _ (outcome_allConditions cond i stored true hun rfl) 3 3
      .off .off (.inl rfl) (.inl rfl) (checkAccess_ban hfalse) ?_
    · rintro t ⟨ht, hcond, -⟩
      simp only [conditionStore, conditionalTuples, List.mem_cons, List.not_mem_nil, or_false] at ht
      rcases ht with rfl | rfl
      · exact hbans
      · exact absurd rfl hcond
    · exact checkAccess_ban (evalCondition_allConditions i true true stored)
  · intro hbans env root hroot hused cond' σ ho maxDepth maxDepth' mode mode' hm hm' hallow
    refine checkAccess_favoured hroot ?_ hm hm' hallow
    intro q hq ρ hρ r hr t ht hread
    by_cases hun : Unevaluable cond t
    · refine ⟨fun _ hpass => ?_, fun hon _ => ?_⟩
      · have hfalse := evalCondition_of_unevaluable hun false (by simp)
        exact absurd (hfalse.symm.trans hpass) (by simp)
      · refine evalCondition_of_missesContext (hbans _ _ ?_ hun)
        have hcond : t.conditionId ≠ none := by
          intro hnone
          rw [Unevaluable, hnone] at hun
          cases hun
        exact hused t ⟨ht, hcond, q, hq, ρ, hρ, r, hr, hon, hread⟩
    · refine ⟨fun _ hpass => ?_, fun _ hpass => ?_⟩
      · exact (ho.kept t ht hun false).trans hpass
      · exact (ho.kept t ht hun true).symm.trans hpass

/-- A ban under a condition that was deleted does not ban, and the document is allowed. -/
theorem deleted_condition_lifts_ban :
    ¬ NotDeniedUnderOutcomes (conditionStore banRules (some 7) none) (docQuestion 3 false)
      { allConditions 7 true with conditions := [] }
      (Unevaluable { allConditions 7 true with conditions := [] }) := by
  intro h
  have hdeleted : evalCondition { allConditions 7 true with conditions := [] } true (some 7) none =
      .ok false := by decide
  exact h (allConditions 7 true) (fun _ => true)
    (outcome_allConditions { allConditions 7 true with conditions := [] } 7 none true rfl rfl) 3 3
    .off .off (.inl rfl) (.inl rfl) (checkAccess_ban hdeleted)
    (checkAccess_ban (evalCondition_allConditions 7 true true none))

end PgAuthz
