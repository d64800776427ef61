import PgAuthz.Engine.Explain
import PgAuthz.Resolution.CallTree

/-!
# The tree of an explanation

An explanation shows its steps as a tree, which is rebuilt from the trace by the depths of the steps. The
evaluator writes the step about an answer directly behind the steps of the call that gave it, and all other
steps are about no call. So the tree is that of the recursion, however it runs.

## Main definitions

* `explainTree`: the tree of a trace
* `TraceStep.callee`: the node whose evaluation a step reports
* `recursionTree`: the recursion of the evaluator, with the steps of the gates behind it

## Main results

* `explainTree_recursion`: the tree of an explanation is that of the recursion
-/

namespace PgAuthz

open Resolution

/-- `_explain_tree`: a step adopts what is deeper on top of the stack. -/
def explainTree (steps : List TraceStep) : List (CallTree TraceStep) := rebuild TraceStep.depth steps

/-- The node whose evaluation a step reports, if it reports one. -/
def TraceStep.callee (s : TraceStep) : Option Node :=
  match s.detail with
  | .userset target | .contextualUserset target | .ttu target => some target
  | .computed r => some { s.node with relation := r }
  | _ => none

/-- The step reports the answer to the question. -/
def TraceStep.Answers (q : Question) (b : Bool) (s : TraceStep) : Prop := s.callee = some q.node ∧ s.result = b

/-- The step reports no answer. -/
def TraceStep.IsLeaf (s : TraceStep) : Prop := s.callee = none

/-! ## The evaluators -/

section Evaluators

variable {env : CheckEnv} {d : ℕ}

/-- A walk of a call at depth `d` that reports every answer behind its question. -/
abbrev ReportsAt {α : Type} (d : ℕ) (w : TracedEval α) : Prop :=
  w.Reporting (fun q b s => s.Answers q b ∧ s.depth = d) (fun s => s.IsLeaf ∧ s.depth = d) none

theorem silent_probe (assume : Bool) (row : Tuple → Bool) : (probe env assume row).Silent := by
  unfold probe
  split
  · trivial
  · exact Walk.silent_any fun t => Walk.silent_lift _

theorem silent_probeUnless (skip assume : Bool) (row : Tuple → Bool) :
    (probeUnless skip env assume row).Silent := by
  unfold probeUnless
  split
  · trivial
  · exact silent_probe assume row

/-- A question, and the step that reports its answer. -/
theorem reportsAt_inquire {q : Question} {step : Bool → TraceStep}
    (hstep : ∀ b, (step b).Answers q b ∧ (step b).depth = d) :
    ReportsAt d (do
      let b ← Walk.inquire q
      Walk.report (step b)
      return b : TracedEval Bool) :=
  ⟨rfl, fun b => ⟨hstep b, rfl⟩⟩

theorem reportsAt_followRowsTraced {assume : Bool} {rows : List Tuple} {target : Tuple → Option Node}
    {step : Node → Bool → TraceStep} (hstep : ∀ n b, (step n b).Answers ⟨n, assume⟩ b ∧ (step n b).depth = d) :
    ReportsAt d (followRowsTraced env assume rows target step) := by
  refine Walk.reporting_any fun t _ => ?_
  cases target t with
  | none => rfl
  | some n =>
    refine Walk.reporting_bind (Walk.reporting_lift _) fun b => Walk.reporting_ite ?_ rfl
    exact reportsAt_inquire (hstep n)

theorem reportsAt_followCtxRowsTraced {assume : Bool} {target : CtxTuple → Option Node}
    {step : Node → Bool → TraceStep} (hstep : ∀ n b, (step n b).Answers ⟨n, assume⟩ b ∧ (step n b).depth = d) :
    ReportsAt d (followCtxRowsTraced env assume target step) := by
  refine Walk.reporting_ite (Walk.reporting_any fun t _ => ?_) rfl
  cases target t with
  | none => rfl
  | some n => exact reportsAt_inquire (hstep n)

/-- A branch that reports a leaf before it returns, and what follows it. -/
theorem reportsAt_returning {x : Eval Bool} (hx : x.Silent) {s : TraceStep} (hs : s.IsLeaf ∧ s.depth = d)
    {rest : TracedEval Bool} (hrest : ReportsAt d rest) :
    ReportsAt d (x.embed >>= fun b => if b = true then Walk.report s >>= fun _ => Walk.done true else rest) :=
  Walk.reporting_bind (Walk.reporting_embed hx) fun _ =>
    Walk.reporting_ite (Walk.reporting_bind (Walk.reporting_report hs) fun _ => rfl) hrest

/-- A loop that returns at its first success, and what follows it. -/
theorem reportsAt_passing {x rest : TracedEval Bool} (hx : ReportsAt d x) (hrest : ReportsAt d rest) :
    ReportsAt d (x >>= fun b => if b = true then Walk.done true else rest) :=
  Walk.reporting_bind hx fun _ => Walk.reporting_ite rfl hrest

theorem reportsAt_evalDirectTraced (rule : Rule) (q : Question) : ReportsAt d (evalDirectTraced env d rule q) := by
  unfold evalDirectTraced
  -- the three probes for a tuple of the subject
  refine reportsAt_returning (silent_probeUnless _ _ _) (by exact ⟨rfl, rfl⟩) ?_
  refine reportsAt_returning (silent_probeUnless _ _ _) (by exact ⟨rfl, rfl⟩) ?_
  refine reportsAt_returning (silent_probe _ _) (by exact ⟨rfl, rfl⟩) ?_
  refine Walk.reporting_bind (Walk.reporting_reportIf ⟨rfl, rfl⟩) fun _ => ?_
  refine Walk.reporting_ite (Walk.reporting_bind (Walk.reporting_report ⟨rfl, rfl⟩) fun _ => rfl) ?_
  refine reportsAt_passing (reportsAt_followRowsTraced fun n b => ⟨⟨rfl, rfl⟩, rfl⟩) ?_
  refine reportsAt_passing (reportsAt_followRowsTraced fun n b => ⟨⟨rfl, rfl⟩, rfl⟩) ?_
  refine reportsAt_passing (reportsAt_followCtxRowsTraced fun n b => ⟨⟨rfl, rfl⟩, rfl⟩) ?_
  exact Walk.reporting_bind (Walk.reporting_reportIf ⟨rfl, rfl⟩) fun _ => rfl

theorem reportsAt_evalTtuTraced (rule : Rule) (q : Question) (tuplesetRelation tuplesetComputed : ℕ) :
    ReportsAt d (evalTtuTraced env d rule q tuplesetRelation tuplesetComputed) := by
  unfold evalTtuTraced
  refine reportsAt_passing (reportsAt_followRowsTraced fun n b => ⟨⟨rfl, rfl⟩, rfl⟩) ?_
  refine reportsAt_passing (reportsAt_followCtxRowsTraced fun n b => ⟨⟨rfl, rfl⟩, rfl⟩) ?_
  exact Walk.reporting_bind (Walk.reporting_reportIf ⟨rfl, rfl⟩) fun _ => rfl

theorem reportsAt_evalRuleTraced (q : Question) (rule : Rule) : ReportsAt d (evalRuleTraced env d q rule) := by
  unfold evalRuleTraced
  cases rule.body with
  | direct => exact reportsAt_evalDirectTraced rule q
  | computed r => exact reportsAt_inquire fun b => ⟨⟨rfl, rfl⟩, rfl⟩
  | ttu tuplesetRelation tuplesetComputed => exact reportsAt_evalTtuTraced rule q _ _

theorem reportsAt_reportVerdict (n : Node) (ended : Bool) (st : GroupState) :
    ReportsAt d (reportVerdict d n ended st) := by
  unfold reportVerdict
  split
  · exact Walk.reporting_reportIf ⟨rfl, rfl⟩
  · rfl

theorem reportsAt_evalGroupsTraced {eval : Question → Rule → TracedEval Bool}
    (heval : ∀ q rule, ReportsAt d (eval q rule)) (q : Question) (st : GroupState) (rules : List Rule) :
    ReportsAt d (evalGroupsTraced d eval q st rules) := by
  induction rules generalizing st with
  | nil =>
    rw [evalGroupsTraced]
    exact Walk.reporting_bind (reportsAt_reportVerdict _ _ _) fun _ => rfl
  | cons rule rules ih =>
    rw [evalGroupsTraced]
    refine Walk.reporting_ite (Walk.reporting_bind (reportsAt_reportVerdict _ _ _) fun _ => rfl) ?_
    refine Walk.reporting_bind (reportsAt_reportVerdict _ _ _) fun _ => ?_
    dsimp only
    generalize (if rule.groupId ≠ st.curGroup then GroupState.start rule else st) = st'
    refine Walk.reporting_ite (ih st') ?_
    cases st'.curGroupOp with
    | none => trivial
    | some op =>
      cases op with
      | or => exact reportsAt_passing (heval q rule) (ih st')
      | and => exact Walk.reporting_bind (heval q rule) fun pass => ih _
      | exclusion =>
        refine Walk.reporting_ite ?_ ?_
        · exact Walk.reporting_bind (heval _ rule) fun hit => ih _
        · exact Walk.reporting_bind (heval q rule) fun pass => ih _

/-- **The evaluator reports every answer directly behind the call that gave it.** -/
theorem reportsAt_checkAccessImplTraced (d : ℕ) (q : Question) : ReportsAt d (checkAccessImplTraced env d q) :=
  reportsAt_evalGroupsTraced reportsAt_evalRuleTraced q _ _

end Evaluators

/-! ## The gates -/

section Gates

variable {eval : Clause → Except EngineError Bool} {n : Node} {b : Bool} {steps : List TraceStep}

/-- The steps of a gate stand at the root, and report no call. -/
theorem root_of_mem_traceClauses {name : String} {shadow : Bool} {i : ℕ} {cs : List Clause}
    (h : traceClauses eval n name shadow i cs = .ok (b, steps)) {s : TraceStep} (hs : s ∈ steps) :
    s.IsLeaf ∧ s.depth = 0 := by
  induction cs generalizing i b steps with
  | nil =>
    cases h
    cases hs
  | cons c cs ih =>
    obtain ⟨passed, all, steps', -, hrest, -, rfl⟩ := traceClauses_cons h
    rcases List.mem_cons.mp hs with rfl | hs
    · exact ⟨rfl, rfl⟩
    · exact ih hrest hs

theorem root_of_mem_traceGates {gatesMode : GateMode} {gs : List Gate}
    (h : traceGates eval n gatesMode gs = .ok (b, steps)) {s : TraceStep} (hs : s ∈ steps) :
    s.IsLeaf ∧ s.depth = 0 := by
  induction gs generalizing b steps with
  | nil =>
    cases h
    cases hs
  | cons g gs ih =>
    by_cases hoff : g.mode = .off
    · rw [traceGates, if_pos hoff] at h
      exact ih h hs
    · obtain ⟨pass, all, steps₁, steps₂, hclauses, hrest, -, rfl⟩ := traceGates_cons hoff h
      rcases List.mem_append.mp hs with hs | hs
      · exact root_of_mem_traceClauses hclauses hs
      · exact ih hrest hs

theorem root_of_mem_eventCheckGatesTraced {gt : GateEnv} {userType : ℕ} {userId : String} {gates : List Gate}
    (h : eventCheckGatesTraced gt userType userId n gates = .ok (b, steps)) {s : TraceStep} (hs : s ∈ steps) :
    s.IsLeaf ∧ s.depth = 0 := by
  unfold eventCheckGatesTraced at h
  split at h
  · cases h
    cases hs
  · exact root_of_mem_traceGates h hs

end Gates

/-! ## The tree of an explanation -/

/-- The recursion of `_check_access` from its root while tracing. -/
def callTree (env : CheckEnv) (maxDepth : ℤ) (q : Question) :
    Except (Halt EngineError) (Bool × List (CallTree TraceStep)) :=
  callForest (fun q => pathKey q.node) (fun d q => ⟨d, q.node, none, false, .cycle⟩) (checkAccessImplTraced env)
    (levels maxDepth) 0 [] q

/-- The recursion of an explanation: that of the check, and the steps of the gates behind it. -/
def recursionTree (env : DecideEnv) (q : Question) : Except (Halt EngineError) (List (CallTree TraceStep)) :=
  match callTree { env.check with exclude := none } env.maxDepth q with
  | .error e => .error e
  | .ok (false, forest) => .ok forest
  | .ok (true, forest) =>
    match eventCheckGatesTraced env.gates env.check.userType env.check.userId q.node
        (env.gates.resolve q.node.objectType q.node.relation) with
    | .error e => .error (.raised e)
    | .ok (_, steps) => .ok (forest ++ steps.map fun s => .node s [])

/-- What is below a step are the steps of the call that it reports: a call of its callee at the next depth,
with its own result. A step that reports no call has nothing below it. -/
def OwnSteps (env : CheckEnv) (s : TraceStep) (cs : List (CallTree TraceStep)) : Prop :=
  match s.callee with
  | none => cs = []
  | some n => ∃ assume f P,
      tracedSearch (fun q => pathKey q.node) (fun d q => ⟨d, q.node, none, false, .cycle⟩)
        (checkAccessImplTraced env) f (s.depth + 1) P ⟨n, assume⟩ [] = .ok (s.result, flatten cs)

/-- Trees of one level whose steps have their own steps below them. -/
structure WellGrown (env : CheckEnv) (forest : List (CallTree TraceStep)) : Prop where
  leveled : Leveled TraceStep.depth 0 forest
  ownSteps : Every (OwnSteps env) forest

section Trees

variable {env : CheckEnv} {forest : List (CallTree TraceStep)}

theorem wellGrown_callTree {maxDepth : ℤ} {q : Question} {b : Bool} (h : callTree env maxDepth q = .ok (b, forest)) :
    WellGrown env forest := by
  obtain ⟨hleveled, hevery⟩ := callForest_spec (fun d q => reportsAt_checkAccessImplTraced d q)
    (fun d q => by exact ⟨rfl, rfl⟩) h
  refine ⟨hleveled, Every.imp (fun s cs hown => ?_) hevery⟩
  unfold OwnSteps
  rcases hown with ⟨hleaf, rfl⟩ | ⟨q', b', f, P, ⟨hcallee, hresult⟩, hcall⟩
  · rw [hleaf]
  · rw [hcallee]
    refine ⟨q'.assume, f, P, ?_⟩
    rw [tracedSearch_eq, hcall, hresult]
    rfl

/-- Steps of the root behind the trees. -/
theorem WellGrown.append_leaves (h : WellGrown env forest) {steps : List TraceStep}
    (hsteps : ∀ s ∈ steps, s.IsLeaf ∧ s.depth = 0) :
    WellGrown env (forest ++ steps.map fun s => .node s []) := by
  induction steps generalizing forest with
  | nil =>
    rw [List.map_nil, List.append_nil]
    exact h
  | cons s steps ih =>
    obtain ⟨hleaf, hdepth⟩ := hsteps s List.mem_cons_self
    have hown : OwnSteps env s [] := by
      unfold OwnSteps
      rw [hleaf]
    have hone : WellGrown env (forest ++ [.node s []]) :=
      ⟨leveled_append.mpr ⟨h.leveled, ⟨hdepth, trivial⟩, trivial⟩,
        every_append.mpr ⟨h.ownSteps, ⟨hown, trivial⟩, trivial⟩⟩
    have hrest := ih hone fun s' hs' => hsteps s' (List.mem_cons_of_mem s hs')
    rw [List.append_assoc, List.singleton_append] at hrest
    exact hrest

theorem flatten_leaves (steps : List TraceStep) : flatten (steps.map fun s => CallTree.node s []) = steps := by
  induction steps with
  | nil => rfl
  | cons s steps ih =>
    rw [List.map_cons, flatten, ih]
    rfl

end Trees

/-- The recursion of an explanation has its trace as its steps. -/
theorem recursionTree_of_explain {env : DecideEnv} {q : Question} {x : Explanation}
    (h : explainAccess env q = .ok x) : ∃ forest, recursionTree env q = .ok forest ∧ flatten forest = x.trace ∧
      WellGrown { env.check with exclude := none } forest := by
  unfold explainAccess tracedCheck at h
  unfold recursionTree
  rw [tracedSearch_eq] at h
  cases hcall : callTree { env.check with exclude := none } env.maxDepth q with
  | error e =>
    unfold callTree at hcall
    rw [hcall] at h
    cases h
  | ok r =>
    obtain ⟨b, forest⟩ := r
    have hgrown := wellGrown_callTree hcall
    unfold callTree at hcall
    rw [hcall] at h
    cases b with
    | false =>
      cases h
      exact ⟨forest, rfl, rfl, hgrown⟩
    | true =>
      dsimp only [Except.map] at h
      cases hgates : eventCheckGatesTraced env.gates env.check.userType env.check.userId q.node
          (env.gates.resolve q.node.objectType q.node.relation) with
      | error e =>
        rw [hgates] at h
        cases h
      | ok r =>
        obtain ⟨pass, steps⟩ := r
        rw [hgates] at h
        cases h
        refine ⟨_, rfl, ?_, hgrown.append_leaves fun s hs => root_of_mem_eventCheckGatesTraced hgates hs⟩
        rw [flatten_append, flatten_leaves]
        rfl

/--
**The tree of an explanation is that of the recursion.** Its steps in post-order are those of the trace, each
of them once, and below each step are the steps of the call that it reports.
-/
theorem explainTree_recursion {env : DecideEnv} {q : Question} {x : Explanation}
    (hx : explainAccess env q = .ok x) :
    recursionTree env q = .ok (explainTree x.trace) ∧ flatten (explainTree x.trace) = x.trace ∧
      Every (OwnSteps { env.check with exclude := none }) (explainTree x.trace) := by
  obtain ⟨forest, hforest, htrace, hgrown⟩ := recursionTree_of_explain hx
  have htree : explainTree x.trace = forest := by
    rw [explainTree, ← htrace]
    exact rebuild_flatten hgrown.leveled
  rw [htree]
  exact ⟨hforest, htrace, hgrown.ownSteps⟩

/-- The explanation of a denial by a gate. -/
theorem explainTree_recursion_bannedEnv : ∃ x,
    explainAccess (gatedDecisions bannedEnv) ⟨⟨3, 1, "doc"⟩, false⟩ = .ok x ∧
      flatten (explainTree x.trace) = x.trace := by
  have hok : (explainAccess (gatedDecisions bannedEnv) ⟨⟨3, 1, "doc"⟩, false⟩).isOk = true := by
    decide +kernel
  cases hx : explainAccess (gatedDecisions bannedEnv) ⟨⟨3, 1, "doc"⟩, false⟩ with
  | error e =>
    rw [hx] at hok
    cases hok
  | ok x => exact ⟨x, rfl, (explainTree_recursion hx).2.1⟩

end PgAuthz
