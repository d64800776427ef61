import PgAuthz.Gates.Spec

/-!
# The evaluation of gates

A clause selects the events of the checked principal in its window and compares their number, the number
of their distinct keys or their sum with thresholds. Thresholds and the values of a `match` may refer to the
request context. A gate that is enforced denies when one of its clauses does not pass.

The texts for explanations are left out, as is the trace. Time zones, the subtraction of an interval from
a timestamp and the text of a value are given by the database.

## Main definitions

* `Event`, `Query`, `Clock`: the action log, what is checked, and what the database supplies
* `eventMatching`: `_event_matching`
* `evalClause`: `_event_eval_clause`
* `checkGates`: the loops of `_event_check_gates`
-/

namespace PgAuthz.Gates

/-! ## The action log -/

/-- The kinds of events. -/
inductive EventKind
  | request
  | response
  | denied
deriving DecidableEq, Repr

/-- `_event_kind` -/
def eventKind : String → Except String EventKind
  | "request" => .ok .request
  | "response" => .ok .response
  | "denied" => .ok .denied
  | name => .error s!"Unknown event kind \"{name}\": expected request | response | denied"

/-- A row of `authz.events`. -/
structure Event where
  storeId : ℕ
  subjectType : ℕ
  subjectId : String
  action : ℕ
  kind : EventKind
  objectType : ℕ
  objectId : String
  occurredAt : ℤ
  recordedAt : ℤ
  payload : Json
  recordedBy : String

/-- What is checked, and how: the subject, the relation, the object and the request context, the time, the
bound of a check in the past, and whether missing context is assumed to pass. -/
structure Query where
  storeId : ℕ
  subjectType : ℕ
  subjectId : String
  relation : ℕ
  objectType : ℕ
  objectId : String
  context : Option Json
  now : ℤ
  asOf : Option ℤ
  assume : Bool

/-- What the database supplies: the subtraction of an interval, the start of a calendar bucket in a time
zone, and the text of a value that is not a string. -/
structure Clock where
  minus : ℤ → Interval → ℤ
  bucketStart : String → String → ℤ → Option ℤ
  render : Json → String

/-! ## Clauses -/

/-- The start of the window of a clause, and whether it is in the window. -/
def clauseStart (clock : Clock) (now : ℤ) (body : Json) : Except String (ℤ × Bool) :=
  if body.hasKey "window" then
    match (body.text? "window").bind castInterval with
    | some iv => .ok (clock.minus now iv, false)
    | none => .error "invalid input syntax for type interval"
  else
    match body.text? "calendar", body.text? "tz" with
    | some calendar, some tz =>
      match clock.bucketStart calendar tz now with
      | some start => .ok (start, true)
      | none => .error s!"time zone \"{tz}\" not recognized"
    | _, _ => .error "calendar units are not recognized"

/-- The action of a clause, by default the checked relation. -/
def clauseAction (relations : List Relation) (q : Query) (body : Json) : Except String ℕ :=
  if body.hasKey "action" then
    match relations.find? fun r => some r.name = body.text? "action" with
    | some r => .ok r.id
    | none => .error "action does not resolve"
  else .ok q.relation

/-- A value of a clause in a context. -/
inductive Resolved
  | value (v : Json)
  | missing (key : String)

/-- `_event_resolve` -/
def eventResolve (v : Json) (context : Option Json) : Except String Resolved := do
  match ← eventRef v with
  | .literal v => pure (.value v)
  | .ref path =>
    match (context.getD (.obj [])).at? path with
    | none => pure (.missing ("request." ++ path.headD ""))
    | some .null => pure (.missing ("request." ++ path.headD ""))
    | some v => pure (.value v)

/-- `_event_nest`: the fragment for one entry of a `match`. -/
def eventNest (path : String) (v : Json) : Json :=
  (segments path).foldr (fun seg v => .obj [(seg, v)]) v

/-- The fragments of a `match`, and the request keys that are missing. -/
def matchFragments (context : Option Json) : List (String × Json) → Except String (List Json × List String)
  | [] => .ok ([], [])
  | (key, v) :: ms => do
    let r ← eventResolve v context
    let (fragments, missing) ← matchFragments context ms
    match r with
    | .value v => pure (eventNest key v :: fragments, missing)
    | .missing k => pure (fragments, k :: missing)

/-- The fragments that the payload of an event has to contain, if there is a `match`. -/
def clauseMatch (context : Option Json) (body : Json) : Except String (Option (List Json) × List String) :=
  match body.get? "match" with
  | some (.obj ms) => (matchFragments context ms).map fun (fragments, missing) => (some fragments, missing)
  | _ => .ok (none, [])

/-- The allowed recorders, if they are limited. -/
def clauseRecorders (body : Json) : Option (List String) :=
  match body.get? "recorded_by" with
  | some (.arr vs) => some (vs.filterMap fun v => match v with
    | .str s => some s
    | _ => none)
  | _ => none

/-- The values of thresholds, the request keys that are missing, and whether a value is no number. -/
structure Thresholds where
  values : List (String × ℚ)
  missing : List String
  bad : Bool

/-- The thresholds of a clause. -/
def clauseThresholds (context : Option Json) (body : Json) : List String → Except String Thresholds
  | [] => .ok ⟨[], [], false⟩
  | key :: keys =>
    match body.get? key with
    | none => clauseThresholds context body keys
    | some v => do
      let r ← eventResolve v context
      let t ← clauseThresholds context body keys
      match r with
      | .missing k => pure { t with missing := k :: t.missing }
      | .value (.num n) => pure { t with values := (key, n.value) :: t.values }
      | .value _ => pure { t with bad := true }

/-- What a clause selects. -/
structure Selection where
  action : ℕ
  kind : EventKind
  ofObject : Bool
  start : ℤ
  startIncluded : Bool
  fragments : Option (List Json)
  recorders : Option (List String)

/-- `_event_matching` -/
def eventMatching (events : List Event) (q : Query) (sel : Selection) : List Event :=
  events.filter fun e =>
    e.storeId = q.storeId && e.subjectType = q.subjectType && e.subjectId = q.subjectId &&
    e.action = sel.action && e.kind = sel.kind &&
    (!sel.ofObject || (e.objectType = q.objectType && e.objectId = q.objectId)) &&
    (sel.start < e.occurredAt || (sel.startIncluded && e.occurredAt = sel.start)) &&
    e.occurredAt ≤ q.now &&
    (match q.asOf with
      | none => true
      | some asOf => e.recordedAt ≤ asOf) &&
    (match sel.fragments with
      | none => true
      | some fragments => fragments.all e.payload.contains) &&
    (match sel.recorders with
      | none => true
      | some recorders => recorders.contains e.recordedBy)

/-- The distinct key of an event. -/
def distinctKey (clock : Clock) (key : String) (e : Event) : Option String :=
  if key = "object_id" then some e.objectId
  else if key = "object_type" then some (toString e.objectType)
  else
    match e.payload.at? (segments (dropChars 8 key)) with
    | none => none
    | some .null => none
    | some (.str s) => some s
    | some v => some (clock.render v)

/-- The number at a path of the payload of an event. -/
def payloadNumber (field : String) (e : Event) : Option ℚ :=
  match e.payload.at? (segments field) with
  | some (.num n) => some n.value
  | _ => none

/-- Why a clause passes or does not. -/
inductive Reason
  | passed
  | denied
  | missingContext
  | badRequestValue
  | payloadNotNumeric
  | error
deriving DecidableEq, Repr

/-- What a clause comes to. -/
structure Outcome where
  passed : Bool
  reason : Reason
  observed : Option ℚ
  threshold : Option ℚ
  missingKeys : List String
  scope : String
deriving DecidableEq, Repr

/-- An observed value against the thresholds. -/
def compareThresholds (scope : String) (max min : Option ℚ) (observed : ℚ) : Outcome :=
  let passed := (max.all fun m => observed ≤ m) && min.all fun m => m ≤ observed
  ⟨passed, if passed then .passed else .denied, some observed, max.orElse fun _ => min, [], scope⟩

/-- The part of `_event_eval_clause` that an error may end. -/
def evalBody (clock : Clock) (relations : List Relation) (events : List Event) (q : Query)
    (prim : Primitive) (body : Json) : Except String Outcome := do
  let scope := (body.text? "scope").getD "subject"
  let (start, startIncluded) ← clauseStart clock q.now body
  let action ← clauseAction relations q body
  let kind ← eventKind ((body.text? "kind").getD "request")
  let (fragments, missing) ← clauseMatch q.context body
  let t ← clauseThresholds q.context body ["max", "min", "plus"]
  if missing ++ t.missing ≠ [] then
    -- the optimistic pass takes a clause that only lacks context to pass
    pure ⟨q.assume, .missingContext, none, none,
      (missing ++ t.missing).dedup.insertionSort (· ≤ ·), scope⟩
  else if t.bad then pure ⟨false, .badRequestValue, none, none, [], scope⟩
  else
    let sel : Selection :=
      ⟨action, kind, scope = "object", start, startIncluded, fragments, clauseRecorders body⟩
    let matched := eventMatching events q sel
    let max := t.values.lookup "max"
    let min := t.values.lookup "min"
    let plus := (t.values.lookup "plus").getD 0
    match prim with
    | .formerlyWithin =>
      let passed := !matched.isEmpty
      pure ⟨passed, if passed then .passed else .denied, some (if passed then 1 else 0), some 1, [], scope⟩
    | .countWithin => pure (compareThresholds scope max min (matched.length + plus))
    | .countDistinctWithin =>
      let keys := matched.filterMap (distinctKey clock ((body.text? "key").getD ""))
      pure (compareThresholds scope max min (keys.dedup.length + plus))
    | .sumWithin =>
      let numbers := matched.map (payloadNumber ((body.text? "field").getD ""))
      if numbers.all Option.isSome then
        pure (compareThresholds scope max min ((numbers.filterMap id).sum + plus))
      else pure ⟨false, .payloadNotNumeric, none, none, [], scope⟩

/-- `_event_eval_clause`: an error is a denial. -/
def evalClause (clock : Clock) (relations : List Relation) (events : List Event) (q : Query)
    (clause : Json) : Outcome :=
  match clause with
  | .obj ((key, body) :: _) =>
    let scope := (body.text? "scope").getD "subject"
    match Primitive.ofName key with
    | none => ⟨false, .error, none, none, [], scope⟩
    | some prim =>
      match evalBody clock relations events q prim body with
      | .ok outcome => outcome
      | .error _ => ⟨false, .error, none, none, [], scope⟩
  | _ => ⟨false, .error, none, none, [], "subject"⟩

/-! ## Gates -/

/-- The switch `authz.gates_mode`. -/
inductive GatesMode
  | enforce
  | shadow
  | off
deriving DecidableEq, Repr

/-- The clauses of a gate. -/
def gateClauses (spec : Json) : List Json :=
  match spec.get? "all_of" with
  | some (.arr clauses) => clauses
  | _ => []

/-- The outcomes of the clauses of a gate. -/
def gateOutcomes (clock : Clock) (relations : List Relation) (events : List Event) (q : Query)
    (spec : Json) : List Outcome :=
  (gateClauses spec).map (evalClause clock relations events q)

/-- One turn of the loop of `_event_check_gates` over gates: a gate in shadow reports, and one that is off
is skipped. -/
def checkGate (mode : GatesMode) (clock : Clock) (relations : List Relation) (events : List Event)
    (q : Query) (spec : Json) : Bool :=
  spec.text? "mode" = some "off" || mode = .shadow || spec.text? "mode" = some "shadow" ||
    (gateOutcomes clock relations events q spec).all Outcome.passed

/-- `_event_check_gates` -/
def eventCheckGates (mode : GatesMode) (clock : Clock) (relations : List Relation) (events : List Event)
    (q : Query) (specs : List Json) : Bool :=
  mode = .off || specs.all (checkGate mode clock relations events q)

end PgAuthz.Gates
