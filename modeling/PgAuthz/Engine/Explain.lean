import PgAuthz.Engine.Decide
import PgAuthz.Engine.MemoTransparency
import PgAuthz.Resolution.Traced

/-!
# Explanations

An explanation is a decision that is traced: the check reports every step, its memo is off, and the gates
are evaluated to the last clause. It returns the result with a reason and the steps.

The steps change no decision, and neither do the clauses behind the one that denies. The memo does where a
node is met again below itself under the other missing-context switch.

## Main definitions

* `TraceStep`: a row of the trace
* `evalDirectTraced`, `evalTtuTraced`, `evalGroupsTraced`: the evaluators with their trace branches
* `traceGates`: the gates with their trace branches
* `explainAccess`: `_explain_access` up to the rendering of the steps

## Main results

* `tracedCheck_result`: the traced check decides as the check without a memo
* `explain_agrees`: where cuts keep the switch, an explanation has the result of the decision
-/

namespace PgAuthz

open Resolution

/-! ## Steps -/

/-- What a step of the trace is about. A tuple that counts only by the assumption about missing context
comes with its condition and the keys it lacks. -/
inductive StepDetail
  | tuple (assumed : Option (ℕ × List String))
  | wildcardTuple (assumed : Option (ℕ × List String))
  | objectWildcardTuple (assumed : Option (ℕ × List String))
  | conditionDenied (condition : Option (ℕ × List String))
  | contextualTuple
  | noTuple
  | userset (target : Node)
  | contextualUserset (target : Node)
  | computed (relation : ℕ)
  | ttu (target : Node)
  | noLink (tuplesetRelation : ℕ)
  | group (groupId : ℤ) (op : GroupOp)
  | cycle
  | temporalGate (name : String) (clause : ℕ) (shadow : Bool)
deriving DecidableEq, Repr

/-- A row of `_access_trace`: the depth, the node, the rule that is evaluated if any, the result, and
what it is about. -/
structure TraceStep where
  depth : ℕ
  node : Node
  rule : Option Rule
  result : Bool
  detail : StepDetail
deriving DecidableEq, Repr

/-- An evaluation with its trace branches. -/
abbrev TracedEval (α : Type) := Walk EngineError (Question ⊕ TraceStep) α

/-! ## One rule -/

section Rules

variable (env : CheckEnv) (d : ℕ)

/-- `_assumed_cond`: the first row that counts only by the assumption about missing context, if no row
counts on its own. -/
def assumedCond (assume : Bool) (row : Tuple → Bool) : Option (ℕ × List String) :=
  if !assume || env.tuples.any fun t => row t && t.conditionId.isNone then none
  else
    env.tuples.findSome? fun t => do
      let c ← env.conditions.find? fun c => row t ∧ t.conditionId = some c.id
      let missing := conditionMissingKeys c t.conditionContext env.requestContext
      if missing = [] then none else some (c.id, missing)

/-- The rows that a direct rule may match: of the subject or its wildcard, on the object or its
wildcard. -/
def anyDirectRow (n : Node) (t : Tuple) : Bool :=
  [n.objectId, wildcard].any fun o => directRow env n o [env.userId, wildcard] t

/-- The condition of the first conditional row, with the keys that it lacks. -/
def deniedCond (n : Node) : Option (ℕ × List String) :=
  env.tuples.findSome? fun t => do
    let c ← env.conditions.find? fun c => anyDirectRow env n t ∧ t.conditionId = some c.id
    return (c.id, conditionMissingKeys c t.conditionContext env.requestContext)

/-- The loop over stored rows, with a step for every row that is checked. -/
def followRowsTraced (assume : Bool) (rows : List Tuple) (target : Tuple → Option Node)
    (step : Node → Bool → TraceStep) : TracedEval Bool :=
  Walk.any rows fun t =>
    match target t with
    | none => return false
    | some n => do
      if ← Walk.lift (evalCondition env.toConditionEnv assume t.conditionId t.conditionContext) then
        let b ← Walk.inquire ⟨n, assume⟩
        Walk.report (step n b)
        return b
      else
        return false

/-- The loop over contextual rows, with a step for every row. -/
def followCtxRowsTraced (assume : Bool) (target : CtxTuple → Option Node) (step : Node → Bool → TraceStep) :
    TracedEval Bool :=
  if env.hasCtxTuples then
    Walk.any env.ctxTuples fun t =>
      match target t with
      | none => return false
      | some n => do
        let b ← Walk.inquire ⟨n, assume⟩
        Walk.report (step n b)
        return b
  else
    return false

/-- `_eval_direct` with its trace branches. -/
def evalDirectTraced (rule : Rule) (q : Question) : TracedEval Bool := do
  let n := q.node
  let step := fun result detail => (⟨d, n, some rule, result, detail⟩ : TraceStep)
  let exact := directRow env n n.objectId [env.userId]
  if ← (probeUnless (skipDirect env n) env q.assume exact).embed then
    Walk.report (step true (.tuple (assumedCond env q.assume exact)))
    return true
  let wild := directRow env n n.objectId [wildcard]
  if ← (probeUnless (skipWildcard env n) env q.assume wild).embed then
    Walk.report (step true (.wildcardTuple (assumedCond env q.assume wild)))
    return true
  let objectWild := directRow env n wildcard [env.userId, wildcard]
  if ← (probe env q.assume objectWild).embed then
    Walk.report (step true (.objectWildcardTuple (assumedCond env q.assume objectWild)))
    return true
  Walk.reportIf (!skipDirect env n && env.tuples.any fun t => anyDirectRow env n t && t.conditionId.isSome)
    (step false (.conditionDenied (deniedCond env n)))
  if env.hasCtxTuples && checkCtxDirect env n then
    Walk.report (step true .contextualTuple)
    return true
  if ← followRowsTraced env q.assume (env.tuples.filter fun t => t.conditionId.isNone) (usersetNode n)
      (fun m b => step b (.userset m)) then
    return true
  if ← followRowsTraced env q.assume (env.tuples.filter fun t => t.conditionId.isSome) (usersetNode n)
      (fun m b => step b (.userset m)) then
    return true
  if ← followCtxRowsTraced env q.assume (ctxUsersetNode n) (fun m b => step b (.contextualUserset m)) then
    return true
  Walk.reportIf (!env.tuples.any (anyDirectRow env n)) (step false .noTuple)
  return false

/-- `_eval_ttu` with its trace branches. -/
def evalTtuTraced (rule : Rule) (q : Question) (tuplesetRelation tuplesetComputed : ℕ) : TracedEval Bool := do
  let step := fun result detail => (⟨d, q.node, some rule, result, detail⟩ : TraceStep)
  if ← followRowsTraced env q.assume env.tuples (linkNode q.node tuplesetRelation tuplesetComputed)
      (fun m b => step b (.ttu m)) then
    return true
  if ← followCtxRowsTraced env q.assume (ctxLinkNode q.node tuplesetRelation tuplesetComputed)
      (fun m b => step b (.ttu m)) then
    return true
  Walk.reportIf (!env.tuples.any fun t => (linkNode q.node tuplesetRelation tuplesetComputed t).isSome)
    (step false (.noLink tuplesetRelation))
  return false

/-- `_eval_rule` with its trace branches. -/
def evalRuleTraced (q : Question) (rule : Rule) : TracedEval Bool :=
  match rule.body with
  | .direct => evalDirectTraced env d rule q
  | .computed r => do
    let b ← Walk.inquire ⟨{ q.node with relation := r }, q.assume⟩
    Walk.report ⟨d, q.node, some rule, b, .computed r⟩
    return b
  | .ttu tuplesetRelation tuplesetComputed => evalTtuTraced env d rule q tuplesetRelation tuplesetComputed

/-! ## The rules of a relation -/

/-- The verdict on an intersection or exclusion group that has ended. -/
def reportVerdict (n : Node) (ended : Bool) (st : GroupState) : TracedEval Unit :=
  match st.curGroupOp, st.groupPass with
  | some op, some pass =>
    Walk.reportIf (ended && decide (0 ≤ st.curGroup) && op != .or) ⟨d, n, none, pass, .group st.curGroup op⟩
  | _, _ => return ()

/-- The loop over the remaining rules, with the verdict on every group that ends. -/
def evalGroupsTraced (eval : Question → Rule → TracedEval Bool) (q : Question) :
    GroupState → List Rule → TracedEval Bool
  | st, [] => do
    reportVerdict d q.node true st
    return st.finalizes
  | st, rule :: rules =>
    if rule.groupId ≠ st.curGroup ∧ st.finalizes then do
      reportVerdict d q.node true st
      return true
    else do
      reportVerdict d q.node (rule.groupId ≠ st.curGroup) st
      let st := if rule.groupId ≠ st.curGroup then .start rule else st
      if st.groupPass = some false then evalGroupsTraced eval q st rules
      else
        match st.curGroupOp with
        | none => Walk.raise .caseNotFound
        | some .or => do
          if ← eval q rule then return true
          else evalGroupsTraced eval q st rules
        | some .and => do
          let pass ← eval q rule
          evalGroupsTraced eval q (if pass then st else st.fail) rules
        | some .exclusion =>
          if rule.negated then do
            let hit ← eval { q with assume := !q.assume } rule
            evalGroupsTraced eval q (if hit then st.fail else st) rules
          else do
            let pass ← eval q rule
            evalGroupsTraced eval q (if pass then st else st.fail) rules

/-- `_check_access_impl` after its depth and cycle tests, with its trace branches. -/
def checkAccessImplTraced (q : Question) : TracedEval Bool :=
  evalGroupsTraced d (evalRuleTraced env d) q .init (orderedRules env.rules q.node.objectType q.node.relation)

end Rules

/-! ## Erasure -/

section Erasure

variable {env : CheckEnv} {d : ℕ}

theorem erase_followRowsTraced (assume : Bool) (rows : List Tuple) (target : Tuple → Option Node)
    (step : Node → Bool → TraceStep) :
    (followRowsTraced env assume rows target step).erase = followRows env assume rows target := by
  refine Walk.erase_any fun t _ => ?_
  cases target t with
  | none => rfl
  | some n =>
    simp only [Walk.erase_bind, Walk.erase_lift, Walk.erase_ite, Walk.erase_inquire, Walk.erase_report]
    rfl

theorem erase_followCtxRowsTraced (assume : Bool) (target : CtxTuple → Option Node)
    (step : Node → Bool → TraceStep) :
    (followCtxRowsTraced env assume target step).erase = followCtxRows env assume target := by
  unfold followCtxRowsTraced followCtxRows
  rw [Walk.erase_ite]
  split
  · refine Walk.erase_any fun t _ => ?_
    cases target t with
    | none => rfl
    | some n => rfl
  · rfl

/-- A branch that reports before it returns. -/
theorem erase_returning {x : TracedEval Bool} {y : Eval Bool} (hx : x.erase = y) (s : TraceStep)
    {rest : TracedEval Bool} {rest' : Eval Bool} (hrest : rest.erase = rest') :
    (x >>= fun b => if b = true then Walk.report s >>= fun _ => Walk.done true else rest).erase =
      y >>= fun b => if b = true then Walk.done true else rest' := by
  rw [Walk.erase_bind, hx]
  congr 1
  funext b
  rw [Walk.erase_ite, hrest]
  rfl

/-- A loop that returns at its first success, and what follows it. -/
theorem erase_passing {x rest : TracedEval Bool} {y rest' : Eval Bool} (hx : x.erase = y)
    (hrest : rest.erase = rest') :
    (x >>= fun b => if b = true then Walk.done true else rest).erase =
      y >>= fun b => if b = true then Walk.done true else rest' := by
  rw [Walk.erase_bind, hx]
  congr 1
  funext b
  rw [Walk.erase_ite, hrest]
  rfl

/-- The last loop, whose failure is reported. -/
theorem erase_last {x : TracedEval Bool} {y : Eval Bool} (hx : x.erase = y) (p : Bool) (s : TraceStep) :
    (x >>= fun b => if b = true then Walk.done true else Walk.reportIf p s >>= fun _ => Walk.done false).erase =
      y := by
  have hrest : (Walk.reportIf p s >>= fun _ => Walk.done false : TracedEval Bool).erase = Walk.done false := by
    rw [Walk.erase_bind, Walk.erase_reportIf]
    rfl
  rw [erase_passing hx hrest, Walk.bind_if_true]

/-- The trace branches of `_eval_direct` change no decision. -/
theorem erase_evalDirectTraced (rule : Rule) (q : Question) :
    (evalDirectTraced env d rule q).erase = evalDirect env q := by
  unfold evalDirectTraced evalDirect
  refine erase_returning (Walk.erase_embed _) _ ?_
  refine erase_returning (Walk.erase_embed _) _ ?_
  refine erase_returning (Walk.erase_embed _) _ ?_
  rw [Walk.erase_bind, Walk.erase_reportIf, Walk.bind_done, Walk.erase_ite]
  -- the branch that reports a contextual tuple erases to the one that only returns
  refine if_congr Iff.rfl rfl ?_
  refine erase_passing (erase_followRowsTraced _ _ _ _) ?_
  refine erase_passing (erase_followRowsTraced _ _ _ _) ?_
  exact erase_last (erase_followCtxRowsTraced _ _ _) _ _

/-- The trace branches of `_eval_ttu` change no decision. -/
theorem erase_evalTtuTraced (rule : Rule) (q : Question) (tuplesetRelation tuplesetComputed : ℕ) :
    (evalTtuTraced env d rule q tuplesetRelation tuplesetComputed).erase =
      evalTtu env q tuplesetRelation tuplesetComputed := by
  unfold evalTtuTraced evalTtu
  refine erase_passing (erase_followRowsTraced _ _ _ _) ?_
  exact erase_last (erase_followCtxRowsTraced _ _ _) _ _

/-- The trace branches of `_eval_rule` change no decision. -/
theorem erase_evalRuleTraced (q : Question) (rule : Rule) :
    (evalRuleTraced env d q rule).erase = evalRule env q rule.body := by
  unfold evalRuleTraced evalRule
  cases rule.body with
  | direct => exact erase_evalDirectTraced rule q
  | computed r => rfl
  | ttu tuplesetRelation tuplesetComputed => exact erase_evalTtuTraced rule q tuplesetRelation tuplesetComputed

theorem erase_reportVerdict (n : Node) (ended : Bool) (st : GroupState) :
    (reportVerdict d n ended st).erase = .done () := by
  unfold reportVerdict
  split
  · exact Walk.erase_reportIf _ _
  · rfl

/-- The verdicts on the groups change no decision. -/
theorem erase_evalGroupsTraced {eval : Question → Rule → TracedEval Bool}
    {eval' : Question → RuleBody → Eval Bool} (h : ∀ q rule, (eval q rule).erase = eval' q rule.body)
    (q : Question) (st : GroupState) (rules : List Rule) :
    (evalGroupsTraced d eval q st rules).erase = evalGroups eval' q st rules := by
  induction rules generalizing st with
  | nil =>
    rw [evalGroupsTraced, evalGroups, Walk.erase_bind, erase_reportVerdict]
    rfl
  | cons rule rules ih =>
    rw [evalGroupsTraced, evalGroups, Walk.erase_ite]
    refine if_congr Iff.rfl ?_ ?_
    · rw [Walk.erase_bind, erase_reportVerdict]
      rfl
    · rw [Walk.erase_bind, erase_reportVerdict, Walk.bind_done]
      dsimp only
      generalize (if rule.groupId ≠ st.curGroup then GroupState.start rule else st) = st'
      rw [Walk.erase_ite]
      refine if_congr Iff.rfl (ih st') ?_
      cases st'.curGroupOp with
      | none => rfl
      | some op =>
        cases op with
        | or => exact erase_passing (h q rule) (ih st')
        | and =>
          dsimp only
          rw [Walk.erase_bind, h]
          simp only [ih]
        | exclusion =>
          dsimp only
          rw [Walk.erase_ite]
          refine if_congr Iff.rfl ?_ ?_
          · rw [Walk.erase_bind, h]
            simp only [ih]
          · rw [Walk.erase_bind, h]
            simp only [ih]

theorem erase_checkAccessImplTraced (d : ℕ) (q : Question) :
    (checkAccessImplTraced env d q).erase = checkAccessImpl env q :=
  erase_evalGroupsTraced erase_evalRuleTraced q _ _

end Erasure

/-! ## The traced check -/

/-- `_check_access` from its root while tracing, with the steps: no memo is used. -/
def tracedCheck (env : CheckEnv) (maxDepth : ℤ) (q : Question) :
    Except (Halt EngineError) (Bool × List TraceStep) :=
  tracedSearch (fun q => pathKey q.node) (fun d q => ⟨d, q.node, none, false, .cycle⟩) (checkAccessImplTraced env)
    (levels maxDepth) 0 [] q []

/-- **The traced check decides as the check without a memo.** -/
theorem tracedCheck_result (env : CheckEnv) (maxDepth : ℤ) (q : Question) :
    (tracedCheck env maxDepth q).map Prod.fst = checkAccess env maxDepth .off q := by
  rw [checkAccess_off]
  exact tracedSearch_fst erase_checkAccessImplTraced _ _ _ _ _

/-! ## The gates -/

section Gates

variable (eval : Clause → Except EngineError Bool) (n : Node)

/-- The loop over the clauses of a gate while tracing: it goes on behind a clause that denies. -/
def traceClauses (name : String) (shadow : Bool) :
    ℕ → List Clause → Except EngineError (Bool × List TraceStep)
  | _, [] => .ok (true, [])
  | i, c :: cs => do
    let passed ← eval c
    let (all, steps) ← traceClauses name shadow (i + 1) cs
    return ((passed || shadow) && all, ⟨0, n, none, passed, .temporalGate name i shadow⟩ :: steps)

/-- The loop over the gates while tracing. -/
def traceGates (gatesMode : GateMode) : List Gate → Except EngineError (Bool × List TraceStep)
  | [] => .ok (true, [])
  | g :: gs =>
    if g.mode = .off then traceGates gatesMode gs
    else do
      let (pass, steps) ← traceClauses eval n g.name (gatesMode = .shadow ∨ g.mode = .shadow) 0 g.allOf
      let (all, steps') ← traceGates gatesMode gs
      return (pass && all, steps ++ steps')

variable {eval n}

/-- What a traced loop over clauses has done behind its first one. -/
theorem traceClauses_cons {name : String} {shadow : Bool} {i : ℕ} {c : Clause} {cs : List Clause} {b : Bool}
    {steps : List TraceStep} (h : traceClauses eval n name shadow i (c :: cs) = .ok (b, steps)) :
    ∃ passed all steps', eval c = .ok passed ∧ traceClauses eval n name shadow (i + 1) cs = .ok (all, steps') ∧
      b = ((passed || shadow) && all) ∧
      steps = ⟨0, n, none, passed, .temporalGate name i shadow⟩ :: steps' := by
  rw [traceClauses] at h
  cases hc : eval c with
  | error e =>
    rw [hc] at h
    cases h
  | ok passed =>
    rw [hc] at h
    cases hrest : traceClauses eval n name shadow (i + 1) cs with
    | error e =>
      simp only [hrest] at h
      cases h
    | ok r =>
      obtain ⟨all, steps'⟩ := r
      simp only [hrest] at h
      cases h
      exact ⟨passed, all, steps', rfl, rfl, rfl, rfl⟩

/-- What a traced loop over gates has done behind its first one, if that one is on. -/
theorem traceGates_cons {gatesMode : GateMode} {g : Gate} {gs : List Gate} {b : Bool} {steps : List TraceStep}
    (hon : g.mode ≠ .off) (h : traceGates eval n gatesMode (g :: gs) = .ok (b, steps)) :
    ∃ pass all steps₁ steps₂,
      traceClauses eval n g.name (gatesMode = .shadow ∨ g.mode = .shadow) 0 g.allOf = .ok (pass, steps₁) ∧
      traceGates eval n gatesMode gs = .ok (all, steps₂) ∧ b = (pass && all) ∧ steps = steps₁ ++ steps₂ := by
  rw [traceGates, if_neg hon] at h
  cases hclauses : traceClauses eval n g.name (gatesMode = .shadow ∨ g.mode = .shadow) 0 g.allOf with
  | error e =>
    rw [hclauses] at h
    cases h
  | ok r =>
    obtain ⟨pass, steps₁⟩ := r
    rw [hclauses] at h
    cases hrest : traceGates eval n gatesMode gs with
    | error e =>
      simp only [hrest] at h
      cases h
    | ok r =>
      obtain ⟨all, steps₂⟩ := r
      simp only [hrest] at h
      cases h
      exact ⟨pass, all, steps₁, steps₂, rfl, rfl, rfl, rfl⟩

/-- A loop over clauses that stops where one denies returns what the whole loop does. -/
theorem checkClauses_of_traced {name : String} {shadow : Bool} {i : ℕ} {cs : List Clause} {b : Bool}
    {steps : List TraceStep} (h : traceClauses eval n name shadow i cs = .ok (b, steps)) :
    checkClauses eval shadow cs = .ok b := by
  induction cs generalizing i b steps with
  | nil =>
    cases h
    rfl
  | cons c cs ih =>
    obtain ⟨passed, all, steps', hc, hrest, rfl, rfl⟩ := traceClauses_cons h
    rw [checkClauses, hc]
    cases passed <;> cases shadow <;> simp [ih hrest]

/-- So does a loop over gates. -/
theorem checkGates_of_traced {gatesMode : GateMode} {gs : List Gate} {b : Bool} {steps : List TraceStep}
    (h : traceGates eval n gatesMode gs = .ok (b, steps)) : checkGates gatesMode eval gs = .ok b := by
  induction gs generalizing b steps with
  | nil =>
    cases h
    rfl
  | cons g gs ih =>
    rw [checkGates]
    by_cases hoff : g.mode = .off
    · rw [traceGates, if_pos hoff] at h
      rw [if_pos hoff]
      exact ih h
    · obtain ⟨pass, all, steps₁, steps₂, hclauses, hrest, rfl, rfl⟩ := traceGates_cons hoff h
      rw [if_neg hoff, checkClauses_of_traced hclauses]
      cases pass with
      | false => rfl
      | true => exact ih hrest

end Gates

/-- `_event_check_gates` while tracing. -/
def eventCheckGatesTraced (gt : GateEnv) (userType : ℕ) (userId : String) (n : Node) (gates : List Gate) :
    Except EngineError (Bool × List TraceStep) :=
  if gates = [] ∨ gt.gatesMode = .off then .ok (true, [])
  else
    traceGates (eventEvalClause gt userType userId n.relation n.objectType (some n.objectId)) n gt.gatesMode gates

theorem eventCheckGates_of_traced {gt : GateEnv} {userType : ℕ} {userId : String} {n : Node}
    {gates : List Gate} {b : Bool} {steps : List TraceStep}
    (h : eventCheckGatesTraced gt userType userId n gates = .ok (b, steps)) :
    eventCheckGates gt userType userId n.relation n.objectType (some n.objectId) gates = .ok b := by
  unfold eventCheckGatesTraced at h
  unfold eventCheckGates
  split at h
  · rename_i hnone
    rw [if_pos hnone]
    cases h
    rfl
  · rename_i hsome
    rw [if_neg hsome]
    exact checkGates_of_traced h

/-! ## The explanation -/

/-- `_explain_reason`, by the type and the detail of a step. -/
def StepDetail.reason (detail : StepDetail) (result : Bool) : String :=
  match detail with
  | tuple none => "direct_tuple"
  | wildcardTuple none => "wildcard_tuple"
  | objectWildcardTuple none => "object_wildcard_tuple"
  | tuple (some _) | wildcardTuple (some _) | objectWildcardTuple (some _) => "condition_assumed"
  | conditionDenied (some _) => "condition_denied"
  | conditionDenied none => "direct"
  | contextualTuple => "contextual_tuple"
  | noTuple => "no_direct_tuple"
  | userset _ | contextualUserset _ => "userset"
  | computed _ => "computed"
  | ttu _ | noLink _ => "ttu"
  | group _ .and => if result then "intersection_satisfied" else "intersection_unsatisfied"
  | group _ _ => if result then "exclusion_satisfied" else "exclusion_failed"
  | cycle => "cycle_pruned"
  | temporalGate .. => "temporal_gate"

/-- A step of a gate. -/
def TraceStep.isGate (s : TraceStep) : Bool :=
  match s.detail with
  | .temporalGate .. => true
  | _ => false

/-- A gate that denies. -/
def TraceStep.denies (s : TraceStep) : Bool :=
  match s.detail with
  | .temporalGate _ _ shadow => !s.result && !shadow
  | _ => false

/-- The last of the shallowest steps. -/
def shallowest (steps : List TraceStep) : Option TraceStep :=
  steps.foldl (fun best s =>
    match best with
    | none => some s
    | some b => if s.depth ≤ b.depth then some s else some b) none

/-- The reason of a decision: the shallowest step that grants, or the first cause of a denial that the
trace has. -/
def decisionReason (result : Bool) (steps : List TraceStep) : String :=
  if result then
    ((shallowest (steps.filter fun s => s.result && !s.isGate)).map fun s =>
      s.detail.reason s.result).getD "allowed"
  else if steps.any TraceStep.denies then "gate_denied"
  else if steps.any fun s => !s.result && s.detail.reason false == "exclusion_failed" then "excluded"
  else if steps.any fun s => !s.result && s.detail.reason false == "intersection_unsatisfied" then
    "intersection_unsatisfied"
  else if steps.any fun s => s.detail.reason s.result == "condition_denied" then "condition_denied"
  else "no_matching_rule"

/-- What `_explain_access` returns: `result` and `decision`, and the steps that it renders. -/
structure Explanation where
  result : Bool
  reason : String
  trace : List TraceStep
deriving DecidableEq, Repr

/-- The explanation of a result by its steps. -/
def explanation (result : Bool) (steps : List TraceStep) : Explanation :=
  ⟨result, decisionReason result steps, steps⟩

/-- `_explain_access`: `_decide` while tracing. -/
def explainAccess (env : DecideEnv) (q : Question) : Except (Halt EngineError) Explanation :=
  match tracedCheck { env.check with exclude := none } env.maxDepth q with
  | .error e => .error e
  | .ok (false, steps) => .ok (explanation false steps)
  | .ok (true, steps) =>
    match eventCheckGatesTraced env.gates env.check.userType env.check.userId q.node
        (env.gates.resolve q.node.objectType q.node.relation) with
    | .error e => .error (.raised e)
    | .ok (pass, steps') => .ok (explanation pass (steps ++ steps'))

/-- An explanation has the result of the decision without a memo. -/
theorem decide_off_of_explain {env : DecideEnv} {q : Question} {x : Explanation}
    (h : explainAccess env q = .ok x) : decideAccess { env with mode := .off } none q = .ok x.result := by
  have hcheck := tracedCheck_result { env.check with exclude := none } env.maxDepth q
  unfold explainAccess at h
  unfold decideAccess
  dsimp only
  cases htraced : tracedCheck { env.check with exclude := none } env.maxDepth q with
  | error e =>
    rw [htraced] at h
    cases h
  | ok r =>
    obtain ⟨b, steps⟩ := r
    rw [htraced] at h hcheck
    rw [← hcheck]
    cases b with
    | false =>
      cases h
      rfl
    | true =>
      dsimp only at h
      cases hgates : eventCheckGatesTraced env.gates env.check.userType env.check.userId q.node
          (env.gates.resolve q.node.objectType q.node.relation) with
      | error e =>
        rw [hgates] at h
        cases h
      | ok r =>
        obtain ⟨pass, steps'⟩ := r
        rw [hgates] at h
        cases h
        show Except.mapError _ (eventCheckGates _ _ _ _ _ _ _) = _
        rw [Option.getD_none, eventCheckGates_of_traced hgates]
        rfl

/-- **Traced and untraced evaluation decide alike** where the memo is off or every cut keeps the
missing-context switch. -/
theorem explain_agrees (env : DecideEnv) {q : Question}
    (hmemo : env.mode = .off ∨ CutsKeepSwitch { env.check with exclude := none } q) {x : Explanation}
    {b : Bool} (hx : explainAccess env q = .ok x) (hb : decideAccess env none q = .ok b) : x.result = b := by
  have hoff := decide_off_of_explain hx
  have hcheck : checkAccess { env.check with exclude := none } env.maxDepth env.mode q =
      checkAccess { env.check with exclude := none } env.maxDepth .off q := by
    rcases hmemo with hmode | hcuts
    · rw [hmode]
    · have hdepth : checkAccess { env.check with exclude := none } env.maxDepth .off q ≠ .error .depth := by
        intro hdepth
        unfold decideAccess at hoff
        rw [hdepth] at hoff
        cases hoff
      rcases (memo_transparent hcuts hdepth env.mode).1 with hsame | ⟨hfull, -⟩
      · exact hsame
      · unfold decideAccess at hb
        rw [hfull] at hb
        cases hb
  have hsame : decideAccess env none q = decideAccess { env with mode := .off } none q := by
    unfold decideAccess
    rw [hcheck]
  rw [hsame, hoff] at hb
  exact Except.ok.inj hb

/-- Decisions on a store with a gate whose clause passes for a subject and fails for an object. -/
def gatedDecisions (check : CheckEnv) : DecideEnv where
  check := check
  maxDepth := 32
  mode := .temp
  gates :=
    { gatesMode := .enforce
      modelGates := [⟨1, 3, "cooldown", .enforce, [⟨.subject, "never"⟩, ⟨.object, "never"⟩]⟩]
      evalClause := fun _ _ _ object _ => .ok object.isNone }

/-- The graph allows Ann, the second clause of the gate denies, and the explanation says so. -/
theorem explain_agrees_bannedEnv : ∃ x,
    explainAccess (gatedDecisions bannedEnv) ⟨⟨3, 1, "doc"⟩, false⟩ = .ok x ∧ x.result = false := by
  have hC : CutsKeepSwitch bannedEnv ⟨⟨3, 1, "doc"⟩, false⟩ :=
    properCuts_of_stratified (implements_ruleSystem (by decide)) (sited_pathKey bannedEnv_stratified) _
  have hb : decideAccess (gatedDecisions bannedEnv) none ⟨⟨3, 1, "doc"⟩, false⟩ = .ok false := by
    decide +kernel
  have hok : (explainAccess (gatedDecisions bannedEnv) ⟨⟨3, 1, "doc"⟩, false⟩).isOk = true := by
    decide +kernel
  cases hx : explainAccess (gatedDecisions bannedEnv) ⟨⟨3, 1, "doc"⟩, false⟩ with
  | error e =>
    rw [hx] at hok
    cases hok
  | ok x => exact ⟨x, rfl, explain_agrees (gatedDecisions bannedEnv) (.inr hC) hx hb⟩

/-- **An explanation of the other result**: on the model whose decision changes with the memo, the check
denies and its explanation allows. -/
theorem explain_flippedCycleEnv :
    (decideAccess (gatedDecisions flippedCycleEnv) none ⟨⟨0, 1, "doc"⟩, false⟩ = .ok false) ∧
      (explainAccess (gatedDecisions flippedCycleEnv) ⟨⟨0, 1, "doc"⟩, false⟩).map Explanation.result =
        .ok true := by
  refine ⟨?_, ?_⟩ <;> decide +kernel

end PgAuthz
