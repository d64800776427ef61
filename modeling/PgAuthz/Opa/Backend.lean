import PgAuthz.Opa.Enumeration
import PgAuthz.Opa.Batch

/-!
# The backend behind the policies

An instance with a policy server answers its calls by queries of the rules. A call is encoded as an
input, the rule is evaluated, and its value is decoded. A rule that is undefined has no value: then the
decoder keeps what it started with.

## Main definitions

* `Backend`, `Call`, `Reply`: the backend, what it is asked and what it answers
* `allowDetailed`: the rule of detailed decisions
* `Backend.query`: the value of a rule, or the value to start with
* `Backend.run`: the answer to a call
-/

namespace PgAuthz.Opa

/-! ## Calls -/

/-- A part of a request. The handlers refuse requests with an empty part. -/
abbrev Part := {s : String // s ≠ ""}

/-- A single evaluation. -/
structure EvalRequest where
  subjectType : Part
  subjectID : Part
  action : Part
  objectType : Part
  objectID : Part
  context : Option Fields

/-- A search for objects. -/
structure ResourceQuery where
  subjectType : Part
  subjectID : Part
  action : Part
  objectType : Part

/-- A search for subjects. -/
structure SubjectQuery where
  subjectType : Part
  action : Part
  objectType : Part
  objectID : Part

/-- A search for actions. -/
structure ActionQuery where
  subjectType : Part
  subjectID : Part
  objectType : Part
  objectID : Part

/-- The page that a search asks for. The decoder of page tokens replaces a limit that is not positive. -/
structure PageRequest where
  limit : ℤ
  offset : ℤ
  after : String
  limit_pos : 0 < limit

/-- A call of a backend. -/
inductive Call
  | check (store : String) (req : EvalRequest)
  | detailed (store : String) (req : EvalRequest)
  | batch (store : String) (reqs : List EvalRequest) (globalContext : Option Fields)
      (semantic : String)
  | resources (store : String) (query : ResourceQuery) (context : Option Fields)
      (page : Option PageRequest)
  | subjects (store : String) (query : SubjectQuery) (context : Option Fields)
      (page : Option PageRequest)
  | actions (store : String) (query : ActionQuery) (context : Option Fields)

/-- The token of the next page: the last id, or a sealed one. -/
inductive Cursor
  | plain (after : String)
  | locked (token : String)
deriving DecidableEq

/-- An answer. A list of ids comes with the token of the next page if there is one. -/
inductive Reply
  | decision (b : Bool)
  | report (b : Bool) (detail : Option Fields)
  | decisions (bs : List Bool)
  | ids (ids : List String) (next : Option Cursor)
  | names (names : List String)

/-- The errors of the backend while the policy server answers. -/
inductive BackendError
  | policyHookDenied (denials : List (Denial × ℕ)) (count : ℕ) (dropped : Option ℕ)
  | enumerationRefused
  | enumerationCapExceeded
  | unexpectedShape
  | sealingFailed

/-! ## Detailed decisions -/

/-- What a query is evaluated in, with the reports of the engine. -/
structure DetailEnv extends Env where
  decideDetailed : String → Check → Option Fields → Option (Bool × Fields)

/-- A detailed check of the data client. -/
def checkAccessDetailed (e : DetailEnv) (s : String)
    (userType userId relation objectType objectId context : Json) : Option Fields := do
  let check ← nativeCheck userType userId relation objectType objectId
  let ctx ← nativeContext (some context)
  let r ← e.decideDetailed s check ctx
  return mergeFields [("decision", .bool r.1)] r.2

/-- The detailed check that the query asks for. -/
def graphDetailed (e : DetailEnv) (i : Input) : Option Fields := do
  let s ← store e.toEnv i
  let st ← subjectType e.toEnv i
  let sid ← subjectId e.toEnv i
  let action ← i.action
  let resource ← i.resource
  let rt ← resource.get? "type"
  let rid ← resource.get? "id"
  checkAccessDetailed e s st sid action rt rid (i.context.getD .null)

/-- A reported denial as a value: its source with the code and the message. -/
def Denial.json (d : Denial) : Json :=
  .obj ([("tier", Json.str d.tier), ("hook", Json.str d.hook)] ++
    (d.store.map fun s => ("store", Json.str s)).toList ++
    [("code", Json.str d.code), ("message", Json.str d.message)])

/-- The detailed decision: the report of the engine, with the mounted hooks if there are any, or the
denials of the hooks. -/
def allowDetailed (e : DetailEnv) (i : Input) : Option Fields :=
  if subjectValid e.toEnv i then
    (hooksLoaded e.toEnv i).bind fun loaded =>
      if hooksPass e.toEnv i then
        (graphDetailed e i).map fun report =>
          if loaded = [] then report
          else mergeFields report [("hooks_loaded", .arr (loaded.map .str))]
      else
        some [("decision", .bool false), ("state", .str "deny"), ("reason", .str "policy_hook"),
          ("hook_denials", .arr ((hookDenials e.toEnv i).map Denial.json)),
          ("hooks_loaded", .arr (loaded.map .str))]
  else none

/-! ## The encoders -/

/-- What the call carries: its bearer token, and the clock at the call. -/
structure CallContext where
  token : String
  now : Json

/-- The backend: whether it forwards the token, the deployment it reports, and the sealing of page
tokens, which may fail. -/
structure Backend where
  forwardToken : Bool
  deploymentEnv : String
  encodeSealed : String → Option String

/-- A reference to a subject or to an object. -/
def entity (type id : String) : Json := .obj [("type", .str type), ("id", .str id)]

/-- A text that is left out if it is empty. -/
def unlessEmpty (s : String) : Option String := if s = "" then none else some s

/-- `pageInput`: one row more than the page holds. -/
def pageInput (page : PageRequest) : Page where
  limit := page.limit + 1
  offset := some page.offset
  after := unlessEmpty page.after

/-- An entry of a batch. -/
def evalItem (req : EvalRequest) : EvalItem where
  subject := some (entity req.subjectType req.subjectID)
  action := some (.str req.action)
  resource := some (entity req.objectType req.objectID)
  context := req.context.map .obj

/-- The shared context of a batch. A semantic other than the default one comes with a context. -/
def batchContext (globalContext : Option Fields) (semantic : String) : Option Json :=
  if semantic ≠ "" ∧ semantic ≠ "execute_all" then some (.obj (globalContext.getD []))
  else globalContext.map .obj

/-- The input of a call. -/
def Call.input : Call → Input
  | check store req | detailed store req => {
      store := unlessEmpty store
      subject := some (entity req.subjectType req.subjectID)
      action := some (.str req.action)
      resource := some (entity req.objectType req.objectID)
      context := req.context.map .obj }
  | batch store reqs globalContext semantic => {
      store := unlessEmpty store
      evaluations := some (reqs.map evalItem)
      semantic := if semantic ≠ "" ∧ semantic ≠ "execute_all" then some semantic else none
      context := batchContext globalContext semantic }
  | resources store q context page => {
      store := unlessEmpty store
      subject := some (entity q.subjectType q.subjectID)
      action := some (.str q.action)
      resource := some (.obj [("type", .str q.objectType)])
      context := context.map .obj
      page := page.map pageInput }
  | subjects store q context page => {
      store := unlessEmpty store
      subjectType := some (.str q.subjectType)
      action := some (.str q.action)
      resource := some (entity q.objectType q.objectID)
      context := context.map .obj
      page := page.map pageInput }
  | actions store q context => {
      store := unlessEmpty store
      subject := some (entity q.subjectType q.subjectID)
      resource := some (entity q.objectType q.objectID)
      context := context.map .obj }

/-- What the query adds to every input: the token, the clock and the deployment. -/
def Backend.send (b : Backend) (ctx : CallContext) (i : Input) : Input :=
  { i with
    token := if b.forwardToken then (unlessEmpty ctx.token).map .str else none
    evaluatedAt := some ctx.now
    deployment := some (.obj [("environment",
      .str (if b.deploymentEnv = "" then "unknown" else b.deploymentEnv))]) }

/-! ## The decoders -/

/-- `query`: the value of the rule. Where the rule is undefined, the destination keeps its value. -/
def query {α : Type} (result : Option α) (dest : α) : Except BackendError α :=
  .ok (result.getD dest)

/-- A value as a boolean, false if it is none. -/
def asBool : Option Json → Bool
  | some (.bool b) => b
  | _ => false

/-- The report, without the fields that the answer has of its own. -/
def reportOf : Option Fields → Reply
  | none => .report false none
  | some fields => .report (asBool (fields.lookup "decision"))
      (some (fields.filter fun f => f.1 ≠ "decision" ∧ f.1 ≠ "store"))

/-- The decisions of a batch. A rejection is an error, and so is no value. -/
def decodeBatch : Option BatchAnswer → Except BackendError Reply
  | none => .error .unexpectedShape
  | some (.rejected denials count dropped) => .error (.policyHookDenied denials count dropped)
  | some (.results decisions) => .ok (.decisions decisions)

/-- A page of filtered ids: whether there is more, and the last id that was consumed. -/
structure FilteredPage where
  hasMore : Bool
  cursor : String

/-- `decodeIDs`: the ids of a search, with the page object if they are filtered. No value is no id. -/
def decodeIDs : Option Answer → Except BackendError (List String × Option FilteredPage)
  | none => .ok ([], none)
  | some .refused => .error .enumerationRefused
  | some .tooMany => .error .enumerationCapExceeded
  | some (.ids ids) => .ok (ids, none)
  | some (.page ids more cursor) => .ok (ids, some ⟨more, cursor.getD ""⟩)

/-- `buildPage`: the ids of the page. If there are more, the next page starts after the last of them. -/
def buildPage (ids : List String) (limit : ℤ) : Reply :=
  let page := ids.take limit.toNat
  .ids page (if limit < ids.length then page.getLast?.map .plain else none)

/-- `pageFromFiltered`: the token of the next filtered page is sealed. -/
def Backend.pageFromFiltered (b : Backend) (fp : FilteredPage) :
    Except BackendError (Option Cursor) :=
  if fp.hasMore then
    match b.encodeSealed fp.cursor with
    | some token => .ok (some (.locked token))
    | none => .error .sealingFailed
  else .ok none

/-- The ids of a search with a page. -/
def Backend.decodePage (b : Backend) (limit : ℤ) (raw : Option Answer) :
    Except BackendError Reply := do
  let (ids, filtered) ← decodeIDs raw
  match filtered with
  | some fp => return .ids ids (← b.pageFromFiltered fp)
  | none => return buildPage ids limit

/-- The ids of a search without a page. -/
def decodeSet (raw : Option Answer) : Except BackendError Reply := do
  let (ids, _) ← decodeIDs raw
  return .ids ids none

/-! ## The backend -/

/-- A search rule with its page variant. -/
def Backend.search (b : Backend) (page : Option PageRequest) (set paged : Option Answer) :
    Except BackendError Reply :=
  match page with
  | some p => do b.decodePage p.limit (← query (paged.map some) none)
  | none => do decodeSet (← query (set.map some) none)

/-- The answer of the backend to a call. -/
def Backend.run (b : Backend) (ctx : CallContext) (e : DetailEnv) (call : Call) :
    Except BackendError Reply :=
  let i := b.send ctx call.input
  match call with
  | .check .. => do return .decision (← query (some (allow e.toEnv i)) false)
  | .detailed .. => do return reportOf (← query ((allowDetailed e i).map some) none)
  | .batch .. => do decodeBatch (← query ((evaluations e.toEnv i).map some) none)
  | .resources _ _ _ page =>
    b.search page (accessibleObjects e.toEnv i) (accessibleObjectsPage e.toEnv i)
  | .subjects _ _ _ page =>
    b.search page (accessibleSubjects e.toEnv i) (accessibleSubjectsPage e.toEnv i)
  | .actions .. => do
    return .names (← query ((permittedActions e.toEnv i).map (·.sort (· ≤ ·))) [])

end PgAuthz.Opa
