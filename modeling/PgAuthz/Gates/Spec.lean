import Mathlib.Data.List.Sort
import PgAuthz.Gates.Json
import PgAuthz.Gates.Interval

/-!
# The validator of gate specs

A gate spec is a document with one to sixteen clauses. The validator checks it against the grammar and
returns its normal form: the window of every clause as the database prints it, no null members, and the
derived list of the request keys that the clauses refer to. The trigger of the table runs it again on what
`add_gate` has normalised.

The payload schemas of relations are validated when they are declared. What the database supplies is a
parameter: the size of a value in bytes, and which time zones there are.

## Main definitions

* `Server`, `Relation`: what a spec is validated against
* `eventRef`: `_event_ref`
* `validateBody`, `validateClause`: the checks of one clause
* `validateGateSpec`: `_event_validate_gate_spec`
-/

namespace PgAuthz.Gates

/-! ## What a spec is validated against -/

/-- What the database supplies: `pg_column_size`, the limit `authz.max_context_bytes`, and the names of time
zones. -/
structure Server where
  columnSize : Json → ℕ
  maxContextBytes : ℕ
  zoneKnown : String → Bool

/-- A section of a payload schema: the types of paths. -/
structure SchemaSection where
  required : List (String × String)
  optional : List (String × String)
deriving DecidableEq

/-- A payload schema, with a section for each kind of event. -/
structure PayloadSchema where
  base : SchemaSection
  kinds : List (String × SchemaSection)
deriving DecidableEq

/-- A relation of the store. -/
structure Relation where
  name : String
  id : ℕ
  payloadSchema : Option PayloadSchema
deriving DecidableEq

/-! ## Paths and references -/

/-- The text begins with the characters of another. -/
def startsWith (pre s : String) : Bool := pre.toList.isPrefixOf s.toList

/-- `substr(s, n + 1)` -/
def dropChars (n : ℕ) (s : String) : String := String.ofList (s.toList.drop n)

/-- `string_to_array(s, '.')` -/
def segments (s : String) : List String := (s.toList.splitOnP (· = '.')).map String.ofList

/-- The characters of a path segment. -/
def pathChar (c : Char) : Bool := c.isAlphanum || c = '_' || c = '-'

/-- `_event_path_ok` -/
def eventPathOk (s : String) : Bool :=
  (segments s).all fun seg => seg ≠ "" && seg.toList.all pathChar

/-- The value of a clause: a literal, or a reference to the request. -/
inductive Ref
  | literal (value : Json)
  | ref (path : List String)

/-- `_event_ref` -/
def eventRef (v : Json) : Except String Ref :=
  match v with
  | .str s =>
    if startsWith "$request." s then
      if eventPathOk (dropChars 9 s) then .ok (.ref (segments (dropChars 9 s)))
      else .error s!"malformed reference \"{s}\": expected $request.<dotted.path>"
    else if startsWith "$$" s then .ok (.literal (.str (dropChars 1 s)))
    else if startsWith "$" s then
      .error s!"malformed reference \"{s}\": only $request.<path> references are allowed (write \"$$\" for a literal \"$\")"
    else .ok (.literal v)
  | v => .ok (.literal v)

/-- The request key that a value refers to. -/
def Ref.requestKey : Ref → List String
  | ref path => path.take 1
  | literal _ => []

/-! ## The checks of a clause -/

/-- The primitives of clauses. -/
inductive Primitive
  | formerlyWithin
  | countWithin
  | countDistinctWithin
  | sumWithin
deriving DecidableEq, Repr

/-- The key of a clause. -/
def Primitive.name : Primitive → String
  | formerlyWithin => "formerly_within"
  | countWithin => "count_within"
  | countDistinctWithin => "count_distinct_within"
  | sumWithin => "sum_within"

/-- The primitive of a key. -/
def Primitive.ofName (name : String) : Option Primitive :=
  [formerlyWithin, countWithin, countDistinctWithin, sumWithin].find? fun p => p.name = name

/-- The keys that a clause may have. -/
def Primitive.allowed (prim : Primitive) : List String :=
  ["window", "calendar", "tz", "scope", "action", "kind", "match", "recorded_by"] ++
    match prim with
    | formerlyWithin => []
    | countWithin => ["plus", "max", "min"]
    | countDistinctWithin => ["key", "plus", "max", "min"]
    | sumWithin => ["field", "plus", "max", "min"]

/-- A condition of the validator. -/
def check (c : Bool) (message : String) : Except String Unit :=
  if c then .ok () else .error message

/-- Every key is allowed. -/
def checkKeys (prim : Primitive) (pre : String) (body : Json) : Except String Unit :=
  match body.keys.find? fun k => !prim.allowed.contains k with
  | some key => .error s!"{pre}: key \"{key}\" is not allowed for {prim.name}"
  | none => .ok ()

/-- Window or calendar; the body with the window as the database prints it. -/
def validateWindow (server : Server) (pre : String) (body : Json) : Except String Json := do
  check (body.hasKey "window" ≠ body.hasKey "calendar")
    s!"{pre}: exactly one of \"window\" or \"calendar\" is required"
  match body.get? "window" with
  | some (.str window) =>
    check (windowForm window)
      s!"{pre}: window \"{window}\" must use fixed-length units (s/m/h/d/w or ISO-8601 PT…/P…D/P…W); calendar-length units go in \"calendar\""
    match castInterval window with
    | none => .error s!"{pre}: window \"{window}\" is not a valid interval"
    | some iv =>
      check iv.positive s!"{pre}: window \"{window}\" must be a positive fixed-length interval"
      check (!body.hasKey "tz") s!"{pre}: \"tz\" is only allowed with \"calendar\""
      pure (body.set "window" (.str iv.text))
  | some _ => .error s!"{pre}: window must be an interval string"
  | none =>
    match body.text? "calendar" with
    | none => .error s!"{pre}: calendar must be one of hour | day | week | month | year"
    | some calendar =>
      check (["hour", "day", "week", "month", "year"].contains calendar)
        s!"{pre}: calendar must be one of hour | day | week | month | year"
      match body.text? "tz" with
      | none => .error s!"{pre}: \"calendar\" requires a \"tz\" (IANA zone name)"
      | some tz =>
        check (server.zoneKnown tz) s!"{pre}: unknown time zone \"{tz}\""
        pure body

/-- A declared relation of the store. -/
def checkAction (relations : List Relation) (pre : String) (body : Json) : Except String Unit :=
  match body.get? "action" with
  | none => .ok ()
  | some (.str action) =>
    check (relations.any fun r => r.name = action)
      s!"{pre}: action \"{action}\" is not a relation of the store (declare it with model_register_relation)"
  | some _ => .error s!"{pre}: action must be a relation name"

/-- A text that is one of several, if the key is there. -/
def checkOneOf (key : String) (values : List String) (message : String) (body : Json) :
    Except String Unit :=
  match body.get? key with
  | none => .ok ()
  | some (.str value) => check (values.contains value) message
  | some _ => .error message

/-- The kind of the events. -/
def checkKind (pre : String) : Json → Except String Unit :=
  checkOneOf "kind" ["request", "response", "denied"] s!"{pre}: kind must be one of request | response | denied"

/-- The scope of the events. -/
def checkScope (pre : String) : Json → Except String Unit :=
  checkOneOf "scope" ["subject", "object"] s!"{pre}: scope must be subject | object"

/-- The entries of a `match`; the request keys that they refer to. -/
def validateEntries (pre : String) : List (String × Json) → Except String (List String)
  | [] => .ok []
  | (key, v) :: ms => do
    check (eventPathOk key) s!"{pre}: match key \"{key}\" is not a dotted path"
    let r ← (eventRef v).mapError fun message => s!"{pre}: {message}"
    let keys ← validateEntries pre ms
    pure (r.requestKey ++ keys)

/-- A non-empty `match`. -/
def validateMatch (pre : String) (body : Json) : Except String (List String) :=
  match body.get? "match" with
  | none => .ok []
  | some (.obj (m :: ms)) => validateEntries pre (m :: ms)
  | some _ => .error s!"{pre}: match must be a non-empty object"

/-- A value is a string. -/
def isStr : Json → Bool
  | .str _ => true
  | _ => false

/-- The recorders, if they are limited. -/
def checkRecordedBy (pre : String) (body : Json) : Except String Unit :=
  match body.get? "recorded_by" with
  | none => .ok ()
  | some (.arr (v :: vs)) =>
    check ((v :: vs).all isStr) s!"{pre}: recorded_by must be a non-empty array of strings"
  | some _ => .error s!"{pre}: recorded_by must be a non-empty array of strings"

/-- The keys of one primitive. -/
def checkPrimitive (prim : Primitive) (pre : String) (body : Json) : Except String Unit :=
  match prim with
  | .countDistinctWithin =>
    match body.text? "key" with
    | some key =>
      check (key = "object_id" || key = "object_type" ||
          (startsWith "payload." key && eventPathOk (dropChars 8 key)))
        s!"{pre}: key must be object_id | object_type | payload.<path>"
    | none => .error s!"{pre}: key must be object_id | object_type | payload.<path>"
  | .sumWithin =>
    match body.text? "field" with
    | some field => check (eventPathOk field) s!"{pre}: sum_within requires a \"field\" payload path"
    | none => .error s!"{pre}: sum_within requires a \"field\" payload path"
  | _ => .ok ()

/-- A threshold is a number or a reference; the request keys that thresholds refer to. -/
def thresholdRefs (pre : String) (body : Json) : List String → Except String (List String)
  | [] => .ok []
  | key :: keys =>
    match body.get? key with
    | none => thresholdRefs pre body keys
    | some (.num _) => thresholdRefs pre body keys
    | some (.str s) => do
      let r ← (eventRef (.str s)).mapError fun message => s!"{pre}: {message}"
      match r with
      | .ref path => (thresholdRefs pre body keys).map (path.take 1 ++ ·)
      | .literal _ => .error s!"{pre}: {key} must be a number or a $request.<path> reference"
    | some _ => .error s!"{pre}: {key} must be a number or a $request.<path> reference"

/-- A threshold that is a number. -/
def literalThreshold (body : Json) (key : String) : Option Numeric :=
  match body.get? key with
  | some (.num n) => some n
  | _ => none

/-- The text of a number. -/
def Numeric.text (n : Numeric) : String :=
  let digits := Patterns.padded (n.scale + 1) n.coefficient.natAbs
  let whole := String.ofList (digits.take (digits.length - n.scale))
  let decimals := String.ofList (digits.drop (digits.length - n.scale))
  (if n.coefficient < 0 then "-" else "") ++ whole ++ (if n.scale = 0 then "" else "." ++ decimals)

/-- The literal thresholds are in order. -/
def checkBounds (pre : String) (body : Json) : Except String Unit :=
  match literalThreshold body "min", literalThreshold body "max" with
  | some min, some max =>
    check (min.value ≤ max.value) s!"{pre}: min ({min.text}) exceeds max ({max.text})"
  | _, _ => .ok ()

/-- The thresholds of counts and sums. -/
def validateThresholds (prim : Primitive) (pre : String) (body : Json) :
    Except String (List String) :=
  match prim with
  | .formerlyWithin => .ok []
  | _ => do
    check (body.hasKey "max" || body.hasKey "min") s!"{pre}: {prim.name} requires \"max\" and/or \"min\""
    let keys ← thresholdRefs pre body ["max", "min", "plus"]
    checkBounds pre body
    pure keys

/-! ## The payload schema -/

/-- The operator `||` on objects: the second has precedence. -/
def merge (a b : List (String × String)) : List (String × String) :=
  a.filter (fun p => (b.lookup p.1).isNone) ++ b

/-- `_event_schema_paths`, required and optional. -/
def eventSchemaPaths (schema : PayloadSchema) (kind : String) : List (String × String) :=
  let ofKind := (schema.kinds.lookup kind).getD ⟨[], []⟩
  merge (merge (merge schema.base.required schema.base.optional) ofKind.required) ofKind.optional

mutual

/-- `_event_payload_leaves`: the paths to values that are no object, or an empty one. -/
def eventPayloadLeaves (pre : String) : List (String × Json) → List String
  | [] => []
  | (k, v) :: ms => leavesOf (pre ++ k) v ++ eventPayloadLeaves pre ms

def leavesOf (path : String) : Json → List String
  | .obj [] => [path]
  | .obj (m :: ms) => eventPayloadLeaves (path ++ ".") (m :: ms)
  | _ => [path]

end

/-- The pattern `LIKE key || '.%'`, in which `_` stands for any character. -/
def likeBelow : List Char → List Char → Bool
  | [], '.' :: _ => true
  | p :: ps, c :: cs => (p = '_' || p = c) && likeBelow ps cs
  | _, _ => false

/-- A path is declared, or lies below one that is declared as an object. -/
def declared (paths : List (String × String)) (path : String) : Bool :=
  (paths.lookup path).isSome ||
    paths.any fun d => likeBelow d.1.toList path.toList && ["object", "any"].contains d.2

/-- The schema of the action of a clause, by default of the own relation of the gate. -/
def clauseSchema (relations : List Relation) (own : Option ℕ) (body : Json) : Option PayloadSchema :=
  let relation :=
    if body.hasKey "action" then relations.find? fun r => some r.name = body.text? "action"
    else relations.find? fun r => some r.id = own
  relation.bind Relation.payloadSchema

/-- `_event_check_clause_schema` -/
def eventCheckClauseSchema (relations : List Relation) (own : Option ℕ) (pre : String) (body : Json) :
    Except String Unit :=
  match clauseSchema relations own body with
  | none => .ok ()
  | some schema => do
    let kind := (body.text? "kind").getD "request"
    let paths := eventSchemaPaths schema kind
    match body.text? "field" with
    | none => pure ()
    | some path =>
      match paths.lookup path with
      | none => .error s!"{pre}: sum_within field \"{path}\" is not declared in the payload schema of the action (kind {kind})"
      | some type =>
        check (["number", "any"].contains type)
          s!"{pre}: sum_within field \"{path}\" is declared as {type} — it must be a number"
    match body.text? "key" with
    | none => pure ()
    | some key =>
      check (!startsWith "payload." key || (paths.lookup (dropChars 8 key)).isSome)
        s!"{pre}: key \"payload.{dropChars 8 key}\" is not declared in the payload schema of the action (kind {kind})"
    match body.get? "match" with
    | some (.obj ms) =>
      match (eventPayloadLeaves "" ms).find? fun path => !declared paths path with
      | some path => .error s!"{pre}: match path \"{path}\" is not declared in the payload schema of the action (kind {kind})"
      | none => pure ()
    | _ => pure ()

/-! ## The validator -/

/-- The checks of the body of a clause: its normal form, and the request keys that it refers to. -/
def validateBody (server : Server) (relations : List Relation) (own : Option ℕ) (prim : Primitive)
    (pre : String) (body : Json) : Except String (Json × List String) := do
  checkKeys prim pre body
  let nbody ← validateWindow server pre body
  checkAction relations pre body
  checkKind pre body
  checkScope pre body
  let matchKeys ← validateMatch pre body
  checkRecordedBy pre body
  checkPrimitive prim pre body
  let thresholdKeys ← validateThresholds prim pre body
  eventCheckClauseSchema relations own pre body
  pure (nbody, matchKeys ++ thresholdKeys)

/-- The checks of a clause. -/
def validateClause (server : Server) (relations : List Relation) (own : Option ℕ) (i : ℕ) (clause : Json) :
    Except String (Json × List String) :=
  let pre := s!"gate clause [{i}]"
  match clause with
  | .obj [(key, body)] =>
    match Primitive.ofName key with
    | none => .error s!"{pre}: unknown primitive \"{key}\""
    | some prim =>
      match body with
      | .obj ms => (validateBody server relations own prim pre (.obj ms)).map fun (nbody, keys) =>
          (.obj [(key, nbody)], keys)
      | _ => .error s!"{pre}: {key} takes an object"
  | _ => .error s!"{pre}: a clause is an object with exactly one key (the primitive name)"

/-- The loop over the clauses. -/
def validateClauses (server : Server) (relations : List Relation) (own : Option ℕ) :
    ℕ → List Json → Except String (List Json × List String)
  | _, [] => .ok ([], [])
  | i, clause :: clauses => do
    let (nclause, keys) ← validateClause server relations own i clause
    let (nclauses, moreKeys) ← validateClauses server relations own (i + 1) clauses
    pure (nclause :: nclauses, keys ++ moreKeys)

/-- The derived `required_context`: the request keys, distinct and in order. -/
def requiredContext (keys : List String) : Json :=
  .obj [("request", .arr ((keys.dedup.insertionSort (· ≤ ·)).map .str))]

/-- The normalised spec. The members stand in the order of `jsonb`. -/
def buildSpec (spec : Json) (clauses : List Json) (keys : List String) : Json :=
  Json.stripNulls (.obj
    [("mode", (spec.get? "mode").getD .null),
      ("all_of", .arr clauses),
      ("description", (spec.get? "description").getD .null),
      ("required_context", requiredContext keys)])

/-- Every key of a spec is known. -/
def checkSpecKeys (spec : Json) : Except String Unit :=
  match spec.keys.find? fun k => !(["all_of", "description", "mode", "required_context"].contains k) with
  | some key => .error s!"gate spec has unknown key \"{key}\""
  | none => .ok ()

/-- The description of a spec, if there is one. -/
def checkDescription (spec : Json) : Except String Unit :=
  match spec.get? "description" with
  | none => .ok ()
  | some v => check (isStr v) "gate description must be a string"

/-- The mode of a spec, if there is one. -/
def checkMode : Json → Except String Unit :=
  checkOneOf "mode" ["enforce", "shadow", "off"] "gate mode must be enforce | shadow | off"

/-- `_event_validate_gate_spec` -/
def validateGateSpec (server : Server) (relations : List Relation) (own : Option ℕ) (spec : Json) :
    Except String Json :=
  match spec with
  | .obj _ => do
    check (server.columnSize spec ≤ server.maxContextBytes)
      s!"gate spec exceeds the {server.maxContextBytes}-byte limit (authz.max_context_bytes)"
    checkSpecKeys spec
    checkDescription spec
    checkMode spec
    match spec.get? "all_of" with
    | some (.arr clauses) =>
      check (1 ≤ clauses.length && clauses.length ≤ 16)
        s!"gate all_of must have 1..16 clauses (got {clauses.length})"
      let (nclauses, keys) ← validateClauses server relations own 0 clauses
      pure (buildSpec spec nclauses keys)
    | _ => .error "gate spec requires an \"all_of\" array"
  | _ => .error "gate spec must be a JSON object"

end PgAuthz.Gates
