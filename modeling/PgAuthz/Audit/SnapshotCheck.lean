import PgAuthz.Engine.Decide
import PgAuthz.Engine.MemoTransparency

/-!
# The check against a snapshot

The second evaluator, which answers a check as of a past instant. It reads the temporary tables of
a snapshot, probes all direct tuples of a node at once, knows no contextual tuples and no tuple to
leave out, sorts the rules of a relation by less, and has no limit on contexts. On the same state
it decides as the live evaluator does.

## Main definitions

* `SnapshotEnv`: what one check against a snapshot reads
* `evalConditionSnapshot`, `evalDirectSnapshot`, `evalTtuSnapshot`, `evalRuleSnapshot`: the second
  evaluator
* `checkAccessSnapshot`: `_check_access_snapshot` from its root
* `SameState live snap`: the snapshot holds what the live check reads

## Main results

* `evalRuleSnapshot_iff`: what a rule of the second evaluator returns is what the rule says
* `checkAccessImpl_agree`: the bodies of the two evaluators agree on all answers
* `checkAccess_eq_snapshot`: the two checks decide alike
-/

namespace PgAuthz

open Resolution

/-! ## The second evaluator -/

/-- What one check against a snapshot reads: the temporary tables, the clock that `_eval_as_of`
sets, the request context and the subject. -/
structure SnapshotEnv where
  platform : Platform
  conditions : List Condition
  evalClock : ℤ
  requestContext : Option Context
  rules : List Rule
  tuples : List Tuple
  userType : ℕ
  userId : String

/-- `_eval_condition_snapshot`: every error but a cancelled statement denies. -/
def evalConditionSnapshot (env : SnapshotEnv) (assume : Bool) (conditionId : Option ℕ)
    (stored : Option Context) : Except EngineError Bool :=
  match conditionId with
  | none => .ok true
  | some id =>
    match env.conditions.find? fun c => c.id = id with
    | none => .ok false
    | some c =>
      let request := conditionRequest env.platform env.evalClock c env.requestContext
      if assume ∧ missingKeysOf c stored request ≠ [] then .ok true
      else
        match evalConditionExpr env.platform c.lang c.expression (request.getD [])
            (stored.getD []) with
        | .ok b => .ok b
        | .error .queryCanceled => .error .queryCanceled
        | .error _ => .ok false

/-- A tuple without a userset that gives the subject or every subject of its type the relation on
the object or on every object of its type. -/
def directSnapshotRow (env : SnapshotEnv) (n : Node) (t : Tuple) : Bool :=
  t.objectType = n.objectType ∧ t.objectId ∈ [n.objectId, wildcard] ∧ t.relation = n.relation ∧
    t.userType = env.userType ∧ t.userId ∈ [env.userId, wildcard] ∧ t.userRelation = none

/-- The two probes of `_eval_direct_snapshot`: an unconditional row, then a conditional one that
passes. -/
def probeSnapshot (env : SnapshotEnv) (assume : Bool) (row : Tuple → Bool) : Eval Bool := do
  if env.tuples.any fun t => row t && t.conditionId.isNone then
    return true
  Walk.any (env.tuples.filter fun t => row t && t.conditionId.isSome) fun t =>
    Walk.lift (evalConditionSnapshot env assume t.conditionId t.conditionContext)

/-- The loop over rows of the snapshot. -/
def followSnapshotRows (env : SnapshotEnv) (assume : Bool) (rows : List Tuple)
    (target : Tuple → Option Node) : Eval Bool :=
  Walk.any rows fun t =>
    match target t with
    | none => return false
    | some n => do
      if ← Walk.lift (evalConditionSnapshot env assume t.conditionId t.conditionContext) then
        Walk.query ⟨n, assume⟩
      else
        return false

/-- `_eval_direct_snapshot`. -/
def evalDirectSnapshot (env : SnapshotEnv) (q : Question) : Eval Bool := do
  if ← probeSnapshot env q.assume (directSnapshotRow env q.node) then
    return true
  if ← followSnapshotRows env q.assume (env.tuples.filter fun t => t.conditionId.isNone)
      (usersetNode q.node) then
    return true
  followSnapshotRows env q.assume (env.tuples.filter fun t => t.conditionId.isSome)
    (usersetNode q.node)

/-- `_eval_ttu_snapshot`. -/
def evalTtuSnapshot (env : SnapshotEnv) (q : Question) (tuplesetRelation tuplesetComputed : ℕ) :
    Eval Bool :=
  followSnapshotRows env q.assume env.tuples (linkNode q.node tuplesetRelation tuplesetComputed)

/-- `_eval_rule_snapshot`. -/
def evalRuleSnapshot (env : SnapshotEnv) (q : Question) : RuleBody → Eval Bool
  | .direct => evalDirectSnapshot env q
  | .computed r => Walk.query ⟨{ q.node with relation := r }, q.assume⟩
  | .ttu tuplesetRelation tuplesetComputed =>
    evalTtuSnapshot env q tuplesetRelation tuplesetComputed

/-- The order `(group_id, negated)` of the rule query; rules that tie stay as the table has them. -/
def Rule.snapshotOrder (a b : Rule) : Prop :=
  a.groupId < b.groupId ∨ (a.groupId = b.groupId ∧ a.negated ≤ b.negated)

instance : DecidableRel Rule.snapshotOrder := fun _ _ => inferInstanceAs (Decidable (_ ∨ _))

/-- The rules of a relation in the order of the second evaluator. -/
def orderedSnapshotRules (rules : List Rule) (objectType relation : ℕ) : List Rule :=
  (rules.filter fun ρ => ρ.objectType = objectType ∧ ρ.relation = relation).insertionSort
    Rule.snapshotOrder

/-- `_check_access_snapshot_impl` after its depth and cycle tests. -/
def checkAccessSnapshotImpl (env : SnapshotEnv) (q : Question) : Eval Bool :=
  evalGroups (evalRuleSnapshot env) q .init
    (orderedSnapshotRules env.rules q.node.objectType q.node.relation)

/-- The memo of the second evaluator is a temporary table, unless `authz.memoize` is off. -/
def snapshotMemo (memoize : Bool) : MemoMode := if memoize then .temp else .off

/-- `_check_access_snapshot` from its root. -/
def checkAccessSnapshot (env : SnapshotEnv) (maxDepth : ℤ) (memoize : Bool) (q : Question) :
    Except (Halt EngineError) Bool :=
  (memoSearch (snapshotMemo memoize).backend (fun q => pathKey q.node)
    (checkAccessSnapshotImpl env) (levels maxDepth) 0 [] q ((snapshotMemo memoize).empty, 0)).map
    Prod.fst

/-! ## Without the limit on contexts -/

/-- A server that never raises `program_limit_exceeded`. -/
def Platform.unguarded (pf : Platform) : Platform where
  exec lang expression request stored :=
    match pf.exec lang expression request stored with
    | .limitExceeded => .failed
    | outcome => outcome
  columnSize _ := 0
  toChar := pf.toChar

/-- The check without a limit on contexts. -/
def CheckEnv.unguarded (env : CheckEnv) : CheckEnv :=
  { env with platform := env.platform.unguarded, maxContextBytes := 0 }

theorem not_oversized (pf : Platform) (c : Option Context) :
    oversized pf.unguarded 0 c = false := by
  cases c <;> simp [oversized, Platform.unguarded]

/-- A condition that returns also returns without the limit. -/
theorem evalCondition_unguarded {env : CheckEnv} {a c : Bool} {id : Option ℕ}
    {stored : Option Context} (h : evalCondition env.toConditionEnv a id stored = .ok c) :
    evalCondition env.unguarded.toConditionEnv a id stored = .ok c := by
  unfold evalCondition at h ⊢
  cases id with
  | none => exact h
  | some id =>
    dsimp only at h ⊢
    change (match env.conditions.find? fun c => c.id = id with
      | none => _
      | some c => _) = _
    cases hc : env.conditions.find? fun c => c.id = id with
    | none =>
      rw [hc] at h
      exact h
    | some cond =>
      rw [hc] at h
      dsimp only at h ⊢
      have hreq : conditionRequest env.unguarded.platform env.unguarded.evalClock cond
          env.unguarded.requestContext =
          conditionRequest env.platform env.evalClock cond env.requestContext := rfl
      rw [hreq]
      split at h
      · rename_i hmissing
        rw [if_pos hmissing]
        exact h
      · rename_i hmissing
        rw [if_neg hmissing]
        split at h
        · cases h
        · rw [if_neg (by simp [CheckEnv.unguarded, not_oversized])]
          revert h
          unfold evalConditionExpr
          simp only [CheckEnv.unguarded, Platform.unguarded]
          cases env.platform.exec cond.lang cond.expression _ _ <;> simp

variable {env : CheckEnv}

theorem extends_probe (a : Bool) (row : Tuple → Bool) :
    Walk.Extends (probe env a row) (probe env.unguarded a row) := by
  unfold probe
  change Walk.Extends _ (if (env.tuples.any fun t => row t && t.conditionId.isNone) = true then _
    else _)
  split
  · exact .refl _
  · exact Walk.extends_any fun t => Walk.extends_lift fun c => evalCondition_unguarded

theorem extends_followRows (a : Bool) (rows : List Tuple) (target : Tuple → Option Node) :
    Walk.Extends (followRows env a rows target) (followRows env.unguarded a rows target) := by
  apply Walk.extends_any
  intro t
  cases target t with
  | none => exact .refl _
  | some n =>
    apply Walk.extends_bind (Walk.extends_lift fun c => evalCondition_unguarded)
    exact fun c => .refl _

theorem extends_evalRule (q : Question) (body : RuleBody) :
    Walk.Extends (evalRule env q body) (evalRule env.unguarded q body) := by
  have hunless : ∀ skip row, Walk.Extends (probeUnless skip env q.assume row)
      (probeUnless skip env.unguarded q.assume row) := by
    intro skip row
    cases skip with
    | true => exact .refl _
    | false => exact extends_probe q.assume row
  cases body with
  | direct =>
    apply Walk.extends_orElse (hunless _ _)
    apply Walk.extends_orElse (hunless _ _)
    apply Walk.extends_orElse (extends_probe _ _)
    -- the contextual tuples are read alike
    have hctx := Walk.Extends.refl (pure (env.hasCtxTuples && checkCtxDirect env q.node) : Eval Bool)
    exact Walk.extends_orElse hctx (Walk.extends_orElse (extends_followRows _ _ _)
      (Walk.extends_orElse (extends_followRows _ _ _) (.refl _)))
  | computed r => exact .refl _
  | ttu ts c => exact Walk.extends_orElse (extends_followRows _ _ _) (.refl _)

/-- A loop over rules that raise less raises less. -/
theorem extends_evalGroups {eval eval' : Question → RuleBody → Eval Bool}
    (h : ∀ q body, Walk.Extends (eval q body) (eval' q body)) (q : Question) (st : GroupState)
    (l : List Rule) : Walk.Extends (evalGroups eval q st l) (evalGroups eval' q st l) := by
  induction l generalizing st with
  | nil => exact .refl _
  | cons ρ l ih =>
    rw [evalGroups, evalGroups]
    by_cases hfin : ρ.groupId ≠ st.curGroup ∧ st.finalizes = true
    · rw [if_pos hfin, if_pos hfin]
      exact .refl _
    · rw [if_neg hfin, if_neg hfin]
      dsimp only
      generalize (if ρ.groupId ≠ st.curGroup then GroupState.start ρ else st) = st'
      by_cases hfail : st'.groupPass = some false
      · rw [if_pos hfail, if_pos hfail]
        exact ih st'
      · rw [if_neg hfail, if_neg hfail]
        cases st'.curGroupOp with
        | none => exact .refl _
        | some op =>
          cases op with
          | or => exact Walk.extends_orElse (h q ρ.body) (ih st')
          | and => exact Walk.extends_bind (h q ρ.body) fun pass => ih _
          | exclusion =>
            dsimp only
            split
            · exact Walk.extends_bind (h _ ρ.body) fun hit => ih _
            · exact Walk.extends_bind (h q ρ.body) fun pass => ih _

/-- What a body of the live check returns, it returns without the limit. -/
theorem extends_checkAccessImpl (q : Question) :
    Walk.Extends (checkAccessImpl env q) (checkAccessImpl env.unguarded q) :=
  extends_evalGroups (fun _ _ => extends_evalRule _ _) q _ _

/-! ## The second evaluator over its answers -/

/-- A snapshot as the live evaluator would read it. -/
def SnapshotEnv.asCheck (env : SnapshotEnv) : CheckEnv where
  platform := env.platform.unguarded
  maxContextBytes := 0
  conditions := env.conditions
  evalClock := env.evalClock
  requestContext := env.requestContext
  rules := env.rules
  tuples := env.tuples
  ctxTuples := []
  hasCtxTuples := false
  exclude := none
  userType := env.userType
  userId := env.userId

theorem Context.hasKey_put (c : Context) (k v j : String) :
    (c.put k v).hasKey j = (c.hasKey j || decide (k = j)) := by
  rw [Bool.eq_iff_iff]
  simp only [Context.put, Context.hasKey, List.any_append, Bool.or_eq_true, List.any_eq_true,
    List.mem_filter, List.any_cons, List.any_nil, decide_eq_true_eq, Bool.or_false]
  constructor
  · rintro (⟨e, ⟨he, -⟩, hj⟩ | hj)
    · exact .inl ⟨e, he, hj⟩
    · exact .inr hj
  · rintro (⟨e, he, hj⟩ | hj)
    · by_cases hk : e.1 = k
      · exact .inr (hk.symm.trans hj)
      · exact .inl ⟨e, ⟨he, hk⟩, hj⟩
    · exact .inr hj

/-- A server-time condition never misses `current_time`, whichever evaluator asks. -/
theorem conditionMissingKeys_eq (pf : Platform) (clock : ℤ) (c : Condition)
    (stored request : Option Context) :
    conditionMissingKeys c stored (conditionRequest pf clock c request) =
      missingKeysOf c stored (conditionRequest pf clock c request) := by
  unfold conditionMissingKeys conditionRequest
  cases c.timeSource with
  | caller => rfl
  | server =>
    simp only [missingKeysOf, withServerTime, Option.getD_some, Context.hasKey_put,
      Bool.or_assoc, Bool.or_self]

/-- The conditions of the second evaluator are those of the first without its limit. -/
theorem evalConditionSnapshot_eq (env : SnapshotEnv) :
    evalConditionSnapshot env = evalCondition env.asCheck.toConditionEnv := by
  funext a id stored
  unfold evalConditionSnapshot evalCondition
  cases id with
  | none => rfl
  | some id =>
    change (match env.conditions.find? fun c => c.id = id with
      | none => _
      | some c => _) = match env.conditions.find? fun c => c.id = id with
      | none => _
      | some c => _
    cases env.conditions.find? fun c => c.id = id with
    | none => rfl
    | some c =>
      dsimp only
      have hreq : conditionRequest env.asCheck.platform env.asCheck.evalClock c
          env.asCheck.requestContext =
          conditionRequest env.platform env.evalClock c env.requestContext := rfl
      rw [hreq, conditionMissingKeys_eq]
      split
      · rfl
      · rw [if_neg (by simp [SnapshotEnv.asCheck, not_oversized])]
        unfold evalConditionExpr
        simp only [SnapshotEnv.asCheck, Platform.unguarded]
        cases env.platform.exec c.lang c.expression _ _ <;> rfl

theorem probeSnapshot_eq (env : SnapshotEnv) : probeSnapshot env = probe env.asCheck := by
  funext a row
  unfold probeSnapshot
  rw [evalConditionSnapshot_eq]
  rfl

theorem followSnapshotRows_eq (env : SnapshotEnv) :
    followSnapshotRows env = followRows env.asCheck := by
  funext a rows target
  unfold followSnapshotRows
  rw [evalConditionSnapshot_eq]
  rfl

section Answers

variable {snap : SnapshotEnv} {R : Question → Bool → Prop} {b : Bool} {X : Set Question}

/-- The one probe of the second evaluator finds the stored grants. -/
theorem directSnapshotRow_iff {a : Bool} {n : Node} :
    (∃ t ∈ snap.tuples, directSnapshotRow snap n t = true ∧ Passes snap.asCheck a t) ↔
      StoredGrant snap.asCheck a n := by
  refine exists_congr fun t => and_congr_right fun _ => ?_
  have hout : ¬ LeftOut snap.asCheck t := by simp [LeftOut, SnapshotEnv.asCheck]
  simp only [directSnapshotRow, decide_eq_true_eq, List.mem_cons, List.not_mem_nil, or_false,
    hout, not_false_eq_true, and_true]
  change _ ↔ t.relation = n.relation ∧ t.objectType = n.objectType ∧
    (t.objectId = n.objectId ∨ t.objectId = wildcard) ∧ t.userType = snap.userType ∧
    (t.userId = snap.userId ∨ t.userId = wildcard) ∧ t.userRelation = none ∧ _
  constructor
  · rintro ⟨⟨hT, ho, hr, hut, hu, hur⟩, hp⟩
    exact ⟨hr, hT, ho, hut, hu, hur, hp⟩
  · rintro ⟨hr, hT, ho, hut, hu, hur, hp⟩
    exact ⟨⟨hT, ho, hr, hut, hu, hur⟩, hp⟩

theorem evalDirectSnapshot_iff {q : Question}
    (hX : Agrees R X q.assume b fun n' => Premise snap.asCheck q.node n' .direct)
    (hb : (evalDirectSnapshot snap q).Returns R b) : b = true ↔ DirectHolds snap.asCheck X q := by
  have hrows : ∀ p : Tuple → Bool, Agrees R X q.assume b fun n' =>
      ∃ t ∈ snap.asCheck.tuples.filter p, usersetNode q.node t = some n' := by
    rintro p n' ⟨t, ht, hn⟩
    exact hX n' (.inl ⟨t, List.mem_of_mem_filter ht, hn⟩)
  unfold evalDirectSnapshot at hb
  rw [probeSnapshot_eq, followSnapshotRows_eq] at hb
  have hall := Walk.returns_orElse_iff probe_iff (Walk.returns_orElse_iff
    (followRows_iff (hrows fun t => t.conditionId.isNone))
    (followRows_iff (hrows fun t => t.conditionId.isSome))) hb
  have hctx : ¬ ContextualGrant snap.asCheck q.node := by
    simp [ContextualGrant, SnapshotEnv.asCheck]
  have hnone : ∀ P : CtxTuple → Prop,
      ¬ (snap.asCheck.hasCtxTuples = true ∧ ∃ t ∈ snap.asCheck.ctxTuples, P t) := by
    simp [SnapshotEnv.asCheck]
  rw [hall, DirectHolds, usersetHolds_iff, or_iff_right hctx]
  refine or_congr directSnapshotRow_iff (or_congr Iff.rfl ?_)
  simp only [hnone, false_and, exists_false, or_false]

/-- **What a rule of the second evaluator returns is what the rule says** over the snapshot. -/
theorem evalRuleSnapshot_iff {q : Question} {body : RuleBody}
    (hX : Agrees R X q.assume b fun n' => Premise snap.asCheck q.node n' body)
    (hb : (evalRuleSnapshot snap q body).Returns R b) : b = true ↔ RuleHolds snap.asCheck X q body := by
  cases body with
  | direct => exact evalDirectSnapshot_iff hX hb
  | computed r => exact hX _ rfl (Walk.returns_query hb)
  | ttu ts c =>
    change (followSnapshotRows snap q.assume snap.tuples (linkNode q.node ts c)).Returns R b at hb
    rw [followSnapshotRows_eq] at hb
    rw [followRows_iff (fun n' hn => hX n' (.inl hn)) hb]
    refine exists_congr fun n' => and_congr_left fun _ => ?_
    exact ⟨.inl, fun h => h.resolve_right fun h => absurd h.1 (by simp [SnapshotEnv.asCheck])⟩

theorem mayAsk_evalRuleSnapshot (q r : Question) (body : RuleBody)
    (hr : (evalRuleSnapshot snap q body).MayAsk r) :
    r.assume = q.assume ∧ Premise snap.asCheck q.node r.node body := by
  cases body with
  | direct =>
    change (evalDirectSnapshot snap q).MayAsk r at hr
    unfold evalDirectSnapshot at hr
    rw [probeSnapshot_eq, followSnapshotRows_eq] at hr
    rcases Walk.mayAsk_orElse hr with hr | hr
    · exact absurd hr not_mayAsk_probe
    rcases Walk.mayAsk_orElse hr with hr | hr
    · obtain ⟨ha, t, ht, hn⟩ := mayAsk_followRows hr
      exact ⟨ha, .inl ⟨t, List.mem_of_mem_filter ht, hn⟩⟩
    · obtain ⟨ha, t, ht, hn⟩ := mayAsk_followRows hr
      exact ⟨ha, .inl ⟨t, List.mem_of_mem_filter ht, hn⟩⟩
  | computed r' =>
    obtain rfl := Walk.mayAsk_query hr
    exact ⟨rfl, rfl⟩
  | ttu ts c =>
    change (followSnapshotRows snap q.assume snap.tuples (linkNode q.node ts c)).MayAsk r at hr
    rw [followSnapshotRows_eq] at hr
    obtain ⟨ha, hn⟩ := mayAsk_followRows hr
    exact ⟨ha, .inl hn⟩

end Answers

/-! ## The same state -/

/-- **The snapshot holds what the live check reads**: the same rules, conditions and context, and
the tuples without their expiry; the live check has no contextual tuples and leaves no tuple out. -/
structure SameState (live : CheckEnv) (snap : SnapshotEnv) : Prop where
  platform : snap.platform = live.platform
  conditions : ∀ id, (snap.conditions.find? fun c => c.id = id) =
    live.conditions.find? fun c => c.id = id
  evalClock : snap.evalClock = live.evalClock
  requestContext : snap.requestContext = live.requestContext
  rules : ∀ ρ, ρ ∈ snap.rules ↔ ρ ∈ live.rules
  tuples : ∀ t, t ∈ snap.tuples ↔ ∃ t' ∈ live.tuples, t = { t' with expiresAt := none }
  hasCtxTuples : live.hasCtxTuples = false
  exclude : live.exclude = none
  userType : snap.userType = live.userType
  userId : snap.userId = live.userId

namespace SameState

variable {live : CheckEnv} {snap : SnapshotEnv} (h : SameState live snap)
include h

/-- A row of the snapshot is a live row without its expiry. -/
theorem exists_tuple {P P' : Tuple → Prop} (hP : ∀ t, P { t with expiresAt := none } ↔ P' t) :
    (∃ t ∈ snap.tuples, P t) ↔ ∃ t ∈ live.tuples, P' t := by
  constructor
  · rintro ⟨t, ht, hp⟩
    obtain ⟨t', ht', rfl⟩ := (h.tuples t).mp ht
    exact ⟨t', ht', (hP t').mp hp⟩
  · rintro ⟨t, ht, hp⟩
    exact ⟨_, (h.tuples _).mpr ⟨t, ht, rfl⟩, (hP t).mpr hp⟩

theorem passes_iff (a : Bool) (t : Tuple) :
    Passes snap.asCheck a { t with expiresAt := none } ↔ Passes live.unguarded a t := by
  have heval : ∀ id stored, evalCondition snap.asCheck.toConditionEnv a id stored =
      evalCondition live.unguarded.toConditionEnv a id stored := by
    intro id stored
    unfold evalCondition
    cases id with
    | none => rfl
    | some id =>
      simp only [SnapshotEnv.asCheck, CheckEnv.unguarded, h.platform, h.evalClock,
        h.requestContext, h.conditions id]
      rfl
  exact (heval t.conditionId t.conditionContext).congr_left

theorem storedGrant_iff (a : Bool) (n : Node) :
    StoredGrant snap.asCheck a n ↔ StoredGrant live.unguarded a n := by
  refine h.exists_tuple fun t => ?_
  have hout : ¬ LeftOut live.unguarded t := by simp [LeftOut, CheckEnv.unguarded, h.exclude]
  have hout' : ¬ LeftOut snap.asCheck { t with expiresAt := none } := by
    simp [LeftOut, SnapshotEnv.asCheck]
  simp only [hout, hout', h.passes_iff, not_false_eq_true, and_true]
  simp only [SnapshotEnv.asCheck, CheckEnv.unguarded, h.userType, h.userId]

/-- Neither check reads contextual tuples. -/
theorem contextual_iff (P : CtxTuple → Prop) :
    (snap.asCheck.hasCtxTuples = true ∧ ∃ t ∈ snap.asCheck.ctxTuples, P t) ↔
      (live.hasCtxTuples = true ∧ ∃ t ∈ live.ctxTuples, P t) := by
  simp [SnapshotEnv.asCheck, h.hasCtxTuples]

/-- A rule says the same of the snapshot and of the live state. -/
theorem ruleHolds_iff (X : Set Question) (q : Question) (body : RuleBody) :
    RuleHolds snap.asCheck X q body ↔ RuleHolds live.unguarded X q body := by
  cases body with
  | direct =>
    have hgrant : ContextualGrant snap.asCheck q.node ↔ ContextualGrant live.unguarded q.node := by
      simp [ContextualGrant, SnapshotEnv.asCheck, CheckEnv.unguarded, h.hasCtxTuples]
    refine or_congr (h.storedGrant_iff _ _) (or_congr hgrant (exists_congr fun n' => ?_))
    refine and_congr_left fun _ => or_congr (h.exists_tuple fun t => ?_) (h.contextual_iff _)
    exact and_congr Iff.rfl (h.passes_iff _ t)
  | computed r => exact Iff.rfl
  | ttu ts c =>
    refine exists_congr fun n' => and_congr_left fun _ => ?_
    refine or_congr (h.exists_tuple fun t => ?_) (h.contextual_iff _)
    exact and_congr Iff.rfl (h.passes_iff _ t)

theorem premise_iff (n n' : Node) (body : RuleBody) :
    Premise snap.asCheck n n' body ↔ Premise live n n' body := by
  cases body with
  | direct => exact or_congr (h.exists_tuple fun t => Iff.rfl) (h.contextual_iff _)
  | computed r => exact Iff.rfl
  | ttu ts c => exact or_congr (h.exists_tuple fun t => Iff.rfl) (h.contextual_iff _)

end SameState

/-! ## The rules of a relation -/

/-- The rules of a group of a relation have one operator. -/
def OpsAgree (rules : List Rule) : Prop :=
  ∀ ρ ∈ rules, ∀ ρ' ∈ rules, ρ.objectType = ρ'.objectType → ρ.relation = ρ'.relation →
    ρ.groupId = ρ'.groupId → ρ.groupOp = ρ'.groupOp

theorem mem_orderedSnapshotRules {rules : List Rule} {T r : ℕ} {ρ : Rule} :
    ρ ∈ orderedSnapshotRules rules T r ↔ ρ ∈ rules ∧ ρ.objectType = T ∧ ρ.relation = r := by
  simp [orderedSnapshotRules, List.mem_insertionSort]

instance : IsTrans Rule Rule.snapshotOrder where
  trans a b c hab hbc := by
    rcases hab with h | ⟨h, h'⟩ <;> rcases hbc with k | ⟨k, k'⟩
    · exact .inl (h.trans k)
    · exact .inl (k ▸ h)
    · exact .inl (h.symm ▸ k)
    · exact .inr ⟨h.trans k, h'.trans k'⟩

instance : Std.Total Rule.snapshotOrder where
  total a b := by
    rcases lt_trichotomy a.groupId b.groupId with h | h | h
    · exact .inl (.inl h)
    · rcases le_total a.negated b.negated with k | k
      · exact .inl (.inr ⟨h, k⟩)
      · exact .inr (.inr ⟨h.symm, k⟩)
    · exact .inr (.inl h)

theorem pairwise_orderedSnapshotRules (rules : List Rule) (T r : ℕ) :
    (orderedSnapshotRules rules T r).Pairwise Rule.snapshotOrder :=
  List.pairwise_insertionSort Rule.snapshotOrder _

theorem Rule.order.snapshotOrder {a b : Rule} (h : a.order b) : a.snapshotOrder b := by
  rcases h with h | ⟨h, h' | ⟨h', -⟩⟩
  · exact .inl h
  · exact .inr ⟨h, h'.le⟩
  · exact .inr ⟨h, h'.le⟩

theorem Rule.snapshotOrder.groupId_le {a b : Rule} (h : a.snapshotOrder b) :
    a.groupId ≤ b.groupId := by
  rcases h with h | ⟨h, -⟩
  · exact h.le
  · exact h.le

/-- A group of one operator passes whatever the order of its rules, base rules first. -/
theorem newGroupPasses_congr {val val' safe safe' : Rule → Prop} {l l' : List Rule}
    (hval : ∀ ρ ∈ l, val ρ ↔ val' ρ) (hsafe : ∀ ρ ∈ l, safe ρ ↔ safe' ρ)
    (hmem : ∀ ρ, ρ ∈ l ↔ ρ ∈ l')
    (hgroup : ∀ ρ ∈ l, ∀ ρ' ∈ l, ρ.groupId = ρ'.groupId ∧ ρ.groupOp = ρ'.groupOp)
    (hl : l.Pairwise Rule.snapshotOrder) (hl' : l'.Pairwise Rule.snapshotOrder) :
    NewGroupPasses val safe l ↔ NewGroupPasses val' safe' l' := by
  -- the first rules of both lists start the group alike
  have hhead : ∀ {k : List Rule} {first ρ : Rule}, k.Pairwise Rule.snapshotOrder →
      k.head? = some first → ρ ∈ k → first.groupId = ρ.groupId → first.negated ≤ ρ.negated := by
    intro k first ρ hk hfirst hρ hg
    cases k with
    | nil => cases hρ
    | cons a k =>
      obtain rfl : a = first := by simpa using hfirst
      rcases List.mem_cons.mp hρ with rfl | hρ
      · exact le_rfl
      · rcases (List.pairwise_cons.mp hk).1 ρ hρ with h | ⟨-, h⟩
        · omega
        · exact h
  have hstart : ∀ first first', l.head? = some first → l'.head? = some first' →
      GroupState.start first = .start first' := by
    intro first first' hfirst hfirst'
    have hin := List.mem_of_mem_head? hfirst
    have hin' := (hmem first').mpr (List.mem_of_mem_head? hfirst')
    obtain ⟨hid, hop⟩ := hgroup first hin first' hin'
    have hneg : first.negated = first'.negated :=
      le_antisymm (hhead hl hfirst hin' hid) (hhead hl' hfirst' ((hmem first).mp hin) hid.symm)
    simp [GroupState.start, hid, hop, hneg]
  have hpass : ∀ st : GroupState, st.Passes val safe l ↔ st.Passes val' safe' l' := by
    intro st
    refine and_congr_right fun _ => ?_
    cases st.curGroupOp with
    | none => exact Iff.rfl
    | some op =>
      cases op with
      | or =>
        refine exists_congr fun ρ => ?_
        rw [← hmem ρ]
        exact and_congr_right fun hρ => hval ρ hρ
      | and =>
        refine and_congr_right fun _ => forall_congr' fun ρ => ?_
        rw [← hmem ρ]
        exact imp_congr_right fun hρ => hval ρ hρ
      | exclusion =>
        refine and_congr_right fun _ => forall_congr' fun ρ => ?_
        rw [← hmem ρ]
        refine imp_congr_right fun hρ => ?_
        cases ρ.negated with
        | true => exact hsafe ρ hρ
        | false => exact hval ρ hρ
  constructor
  · rintro ⟨first, hfirst, hp⟩
    obtain ⟨first', hfirst'⟩ : ∃ first', l'.head? = some first' := by
      have hne := List.ne_nil_of_mem ((hmem first).mp (List.mem_of_mem_head? hfirst))
      exact ⟨_, List.head?_eq_some_head hne⟩
    exact ⟨first', hfirst', hstart first first' hfirst hfirst' ▸ (hpass _).mp hp⟩
  · rintro ⟨first', hfirst', hp⟩
    obtain ⟨first, hfirst⟩ : ∃ first, l.head? = some first := by
      have hne := List.ne_nil_of_mem ((hmem first').mpr (List.mem_of_mem_head? hfirst'))
      exact ⟨_, List.head?_eq_some_head hne⟩
    exact ⟨first, hfirst, (hpass _).mpr (hstart first first' hfirst hfirst' ▸ hp)⟩

/-! ## The two checks -/

variable {live : CheckEnv} {snap : SnapshotEnv} {b c : Bool}

/-- **The bodies of the two evaluators agree**, whatever they are answered, when both return. -/
theorem checkAccessImpl_agree (h : SameState live snap) (hops : OpsAgree live.rules)
    (ans : Question → Bool) (q : Question)
    (hb : (checkAccessImpl live q).eval (fun r => .ok (ans r)) = .ok b)
    (hc : (checkAccessSnapshotImpl snap q).eval (fun r => .ok (ans r)) = .ok c) : b = c := by
  set X : Set Question := {r | ans r = true} with hX
  have hagree : ∀ (a d : Bool) (C : Node → Prop),
      Agrees (fun q b => (.ok (ans q) : Except (Halt EngineError) Bool) = .ok b) X a d C := by
    intro a d C n _ hn
    obtain rfl : ans ⟨n, a⟩ = d := Except.ok.inj hn
    exact Iff.rfl
  have hlive := evalGroups_init_iff (fun ρ => RuleHolds live.unguarded X q ρ.body)
    (fun ρ => ¬ RuleHolds live.unguarded X q.flip ρ.body)
    (fun ρ _ hr => evalRule_iff (hagree _ _ _) hr)
    (fun ρ _ _ hr => by
      rw [← evalRule_iff (q := q.flip) (hagree _ _ _) hr]
      cases b <;> simp)
    ((pairwise_orderedRules _ _ _).imp fun h => h.snapshotOrder.groupId_le)
    (extends_checkAccessImpl q _ _ (Walk.eval_ok_iff.mp hb))
  have hsnap := evalGroups_init_iff (fun ρ => RuleHolds snap.asCheck X q ρ.body)
    (fun ρ => ¬ RuleHolds snap.asCheck X q.flip ρ.body)
    (fun ρ _ hr => evalRuleSnapshot_iff (hagree _ _ _) hr)
    (fun ρ _ _ hr => by
      rw [← evalRuleSnapshot_iff (q := q.flip) (hagree _ _ _) hr]
      cases c <;> simp)
    ((pairwise_orderedSnapshotRules _ _ _).imp fun h => h.groupId_le)
    (Walk.eval_ok_iff.mp hc)
  rw [Bool.eq_iff_iff, hlive, hsnap]
  refine exists_congr fun g => newGroupPasses_congr (fun ρ _ => (h.ruleHolds_iff X q ρ.body).symm)
    (fun ρ _ => not_congr (h.ruleHolds_iff X q.flip ρ.body).symm) ?_ ?_ ?_ ?_
  · intro ρ
    rw [List.mem_filter, List.mem_filter, mem_orderedRules, mem_orderedSnapshotRules, h.rules]
    rfl
  · intro ρ hρ ρ' hρ'
    obtain ⟨hmem, hg⟩ := List.mem_filter.mp hρ
    obtain ⟨hmem', hg'⟩ := List.mem_filter.mp hρ'
    obtain ⟨hin, hT, hr⟩ := mem_orderedRules.mp hmem
    obtain ⟨hin', hT', hr'⟩ := mem_orderedRules.mp hmem'
    have hid : ρ.groupId = ρ'.groupId := by
      rw [of_decide_eq_true hg, of_decide_eq_true hg']
    exact ⟨hid, hops ρ hin ρ' hin' (hT.trans hT'.symm) (hr.trans hr'.symm) hid⟩
  · exact ((pairwise_orderedRules _ _ _).imp fun h => h.snapshotOrder).filter _
  · exact (pairwise_orderedSnapshotRules _ _ _).filter _

/-- The second evaluator asks the premises of the live rules. -/
theorem checkAccessSnapshotImpl_asks (h : SameState live snap) (q r : Question)
    (hr : (checkAccessSnapshotImpl snap q).MayAsk r) : MayDependOn live q r := by
  obtain ⟨ρ, hρ, hp, ha⟩ := mayAsk_evalGroups mayAsk_evalRuleSnapshot hr
  obtain ⟨hmem, hT, hrel⟩ := mem_orderedSnapshotRules.mp hρ
  have hρ' : ρ ∈ orderedRules live.rules q.node.objectType q.node.relation :=
    mem_orderedRules.mpr ⟨(h.rules ρ).mp hmem, hT, hrel⟩
  have hp' := (h.premise_iff q.node r.node ρ.body).mp hp
  rcases ha with ha | ⟨hneg, ha⟩
  · exact .inl ⟨ha, ρ, hρ', hp'⟩
  · exact .inr ⟨ha, ρ, hρ', hneg, hp'⟩

/-- **On the same state the two checks decide alike** when both return: without memos on every
model, and with any memos where no node that the check can reach depends on itself through an odd
number of negated rules. -/
theorem checkAccess_eq_snapshot (h : SameState live snap) (hops : OpsAgree live.rules)
    {maxDepth : ℤ} {mode : MemoMode} {memoize : Bool} {root : Question}
    (hmemo : (mode = .off ∧ memoize = false) ∨ NoOddCycle live root)
    (hb : checkAccess live maxDepth mode root = .ok b)
    (hc : checkAccessSnapshot snap maxDepth memoize root = .ok c) : b = c := by
  have hdecides : Decides (fun q : Question => pathKey q.node) (checkAccessImpl live) [] root b ∧
      Decides (fun q : Question => pathKey q.node) (checkAccessSnapshotImpl snap) [] root c := by
    rcases hmemo with ⟨rfl, rfl⟩ | hodd
    · constructor
      · exact ⟨_, (checkAccess_off live maxDepth root).symm.trans hb⟩
      · refine ⟨levels maxDepth, Eq.trans ?_ hc⟩
        exact (memoSearch_of_unusable (fun _ => rfl) _ _ _ _ _).symm
    · exact ⟨decides_of_checkAccess (cutsKeepSwitch_of_no_odd_cycle hodd) hb,
        decides_of_memoSearch (checkAccessSnapshotImpl_asks h)
          (properCuts_of_no_odd_cycle (checkAccessSnapshotImpl_asks h) hodd) hc⟩
  obtain ⟨⟨f, hf⟩, g, hg⟩ := hdecides
  exact search_agree (fun ans q b c => checkAccessImpl_agree h hops ans q) hf hg

end PgAuthz
