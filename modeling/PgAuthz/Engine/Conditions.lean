import PgAuthz.Store.Schema

/-!
# Condition evaluation

A conditional tuple counts when its condition passes against the request context and the context
stored with the tuple. A condition whose required keys are missing passes while the missing-context
switch is on. A failing expression denies; a cancelled statement and an oversized context abort the
check instead.

## Main definitions

* `Platform`: what the engine takes from the database server and the expression evaluators
* `EngineError`: the errors a check can raise besides the depth and memo limits
* `evalCondition`: `_eval_condition`
-/

namespace PgAuthz

/-- How the evaluation of an expression ends: with a boolean or NULL, with an error of the
expression, or with one of the two error codes the engine passes on. -/
inductive ExprOutcome
  | value (b : Option Bool)
  | failed
  | canceled
  | limitExceeded
deriving DecidableEq, Repr

/-- What the engine takes from the server: the expression evaluators, the size of a `jsonb` value
and the text of an instant. -/
structure Platform where
  exec : CondLang → String → Context → Context → ExprOutcome
  columnSize : Context → ℕ
  toChar : ℤ → String

/-- The errors a check can raise besides the depth and memo limits. -/
inductive EngineError
  /-- `query_canceled`: a cancelled or timed-out statement -/
  | queryCanceled
  /-- `program_limit_exceeded`: a context over the size limit -/
  | programLimitExceeded
  /-- `case_not_found`: the group operator of the current group is NULL -/
  | caseNotFound
deriving DecidableEq, Repr

/-- `_eval_condition_expr` inside the exception block of its callers: NULL and errors deny, except
for the two codes that are raised again. -/
def evalConditionExpr (pf : Platform) (lang : CondLang) (expression : String)
    (request stored : Context) : Except EngineError Bool :=
  match pf.exec lang expression request stored with
  | .value b => .ok (b.getD false)
  | .failed => .ok false
  | .canceled => .error .queryCanceled
  | .limitExceeded => .error .programLimitExceeded

/-- `_with_server_time`. -/
def withServerTime (pf : Platform) (clock : ℤ) (request : Option Context) : Context :=
  (request.getD []).put "current_time" (pf.toChar clock)

/-- `_missing_keys_of`, in declaration order. -/
def missingKeysOf (c : Condition) (stored request : Option Context) : List String :=
  (c.requiredRequest.filter fun k => !(request.getD []).hasKey k).map ("request." ++ ·) ++
    (c.requiredStored.filter fun k => !(stored.getD []).hasKey k).map ("stored." ++ ·)

/-- `_condition_missing_keys` of a known condition. -/
def conditionMissingKeys (c : Condition) (stored request : Option Context) : List String :=
  missingKeysOf c stored <| match c.timeSource with
    | .server => some ((request.getD []).put "current_time" "true")
    | .caller => request

/-- The context-size guard of a value that may be NULL. -/
def oversized (pf : Platform) (maxContextBytes : ℤ) (c : Option Context) : Bool :=
  match c with
  | none => false
  | some c => decide (maxContextBytes < pf.columnSize c)

/-- The request context a condition sees. -/
def conditionRequest (pf : Platform) (clock : ℤ) (c : Condition) (request : Option Context) :
    Option Context :=
  match c.timeSource with
  | .server => some (withServerTime pf clock request)
  | .caller => request

/-- What a check reads for its conditions: the server, the limit on contexts, the conditions, the
clock of server-time conditions and the request context. -/
structure ConditionEnv where
  platform : Platform
  maxContextBytes : ℤ
  conditions : List Condition
  evalClock : ℤ
  requestContext : Option Context

/-- `_eval_condition` while the missing-context switch is `assume`. -/
def evalCondition (env : ConditionEnv) (assume : Bool) (conditionId : Option ℕ)
    (stored : Option Context) : Except EngineError Bool :=
  match conditionId with
  | none => .ok true
  | some id =>
    match env.conditions.find? fun c => c.id = id with
    | none => .ok false
    | some c =>
      let request := conditionRequest env.platform env.evalClock c env.requestContext
      if assume ∧ conditionMissingKeys c stored request ≠ [] then .ok true
      else if oversized env.platform env.maxContextBytes request ∨
          oversized env.platform env.maxContextBytes stored then .error .programLimitExceeded
      else evalConditionExpr env.platform c.lang c.expression (request.getD []) (stored.getD [])

/-- A condition never raises `case_not_found`. -/
theorem evalCondition_ne_caseNotFound (env : ConditionEnv) (assume : Bool) (id : Option ℕ)
    (stored : Option Context) : evalCondition env assume id stored ≠ .error .caseNotFound := by
  unfold evalCondition evalConditionExpr
  dsimp only
  repeat' split
  all_goals simp

end PgAuthz
