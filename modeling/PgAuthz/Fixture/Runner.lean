import Mathlib.Data.List.Sort
import Mathlib.Data.String.Basic
import PgAuthz.Keyed.Table
import PgAuthz.Transition.Savepoints

/-!
# The runner of test fixtures

A fixture lists tests, and a test lists cases: checks, searches for objects and for subjects, the actions of a
subject, and the reasons of an explanation. A case asserts what the engine answers, for one relation or for several.
The runner asks the engine about one assertion after the other and reports each of them.

All cases of a test run in one transaction behind one savepoint. The runner goes back to the savepoint before each
check, but only before the first relation of a search. It reads the rows of a search and does not ask for an error
behind them.

The cases only read, so the engine answers a question in the same way throughout a run. The maps of a fixture are
tables here, in the order in which the runner goes through their keys.

## Main definitions

* `parseRef`, `contextualTuplesJSON`: what the cases are read into
* `Engine`: what the database answers
* `FixtureTest`: the cases of a test
* `runFixtureCase`, `runTests`: the runs
-/

namespace PgAuthz.Fixture

open Keyed Savepoints

/-! ## References -/

/-- An entity reference. -/
structure Ref where
  typ : String
  id : String
  relation : String
deriving DecidableEq, Repr

/-- `ParseRef`: `type:id` or `type:id#relation`. -/
def parseRef (s : String) : Except String Ref :=
  let (entity, behind) := s.toList.span (· ≠ '#')
  let (typ, rest) := entity.span (· ≠ ':')
  if typ = [] ∨ rest = [] ∨ rest = [':'] then
    .error ("bad entity reference " ++ s.quote ++ " (want type:id or type:id#relation)")
  else .ok ⟨String.ofList typ, String.ofList (rest.drop 1), String.ofList (behind.drop 1)⟩

/-- What the cases read of a tuple. -/
structure FixtureTuple where
  user : String
  relation : String
  object : String
deriving DecidableEq, Repr

/-- A contextual tuple, as the engine takes it. -/
structure ContextualTuple where
  userType : String
  userId : String
  userRelation : Option String
  relation : String
  objectType : String
  objectId : String
deriving DecidableEq, Repr

/-- One contextual tuple. -/
def contextualTuple (t : FixtureTuple) : Except String ContextualTuple := do
  let user ← (parseRef t.user).mapError fun e => "contextual tuple user " ++ t.user.quote ++ ": " ++ e
  let object ← (parseRef t.object).mapError fun e => "contextual tuple object " ++ t.object.quote ++ ": " ++ e
  if t.relation = "" then
    .error ("contextual tuple " ++ t.user ++ " → " ++ t.object ++ ": relation is required")
  else
    .ok ⟨user.typ, user.id, if user.relation = "" then none else some user.relation, t.relation, object.typ,
      object.id⟩

/-- `ContextualTuplesJSON`: nothing for no tuples. -/
def contextualTuplesJSON (ts : List FixtureTuple) : Except String (Option (List ContextualTuple)) :=
  if ts = [] then .ok none else (ts.mapM contextualTuple).map some

/-! ## The engine -/

section Engine

variable (J : Type)

/-- Which of its functions a check asks, with the context and the tuples that it takes. -/
inductive CheckForm
  | plain
  | withContext (context : Option J)
  | withContextualTuples (context : Option J) (tuples : List ContextualTuple)
deriving DecidableEq

/-- A check. -/
structure CheckQuery where
  userType : String
  userId : String
  relation : String
  objectType : String
  objectId : String
  form : CheckForm J
deriving DecidableEq

/-- The searches, with contextual tuples or without. -/
inductive SearchQuery
  | listObjects (userType userId relation objectType : String) (context : Option J)
      (tuples : Option (List ContextualTuple))
  | listSubjects (userType relation objectType objectId : String) (context : Option J)
      (tuples : Option (List ContextualTuple))
  | listActions (userType userId objectType objectId : String) (context : Option J)
      (tuples : Option (List ContextualTuple))
deriving DecidableEq

/-- An explanation. -/
structure ExplainQuery where
  userType : String
  userId : String
  relation : String
  objectType : String
  objectId : String
deriving DecidableEq, Repr

/-- What the engine answers about the store of a run: a check and the reasons of an explanation, or an error; the rows
of a search; and the relations of the exported model with their kinds. -/
structure Engine where
  check : CheckQuery J → Except String Bool
  search : Server (SearchQuery J) String String
  explain : ExplainQuery → Except String (List String)
  kinds : Except String (List (String × String))

end Engine

/-! ## Fixtures -/

section Cases

variable (C : Type)

/-- `CheckCase`. -/
structure CheckCase where
  user : String
  object : String
  assertions : Keyed.Table (@Prod.fst String Bool)
  notes : String → String
  description : String
  context : Option C
  contextualTuples : List FixtureTuple

/-- `ListCase`. -/
structure ListCase where
  user : String
  typ : String
  assertions : Keyed.Table (@Prod.fst String (List String))
  notes : String → String
  description : String
  context : Option C
  contextualTuples : List FixtureTuple

/-- `ListSubjectsCase`. -/
structure ListSubjectsCase where
  object : String
  typ : String
  assertions : Keyed.Table (@Prod.fst String (List String))
  notes : String → String
  description : String
  context : Option C
  contextualTuples : List FixtureTuple

/-- `ListActionsCase`. -/
structure ListActionsCase where
  user : String
  object : String
  expect : List String
  description : String
  context : Option C
  contextualTuples : List FixtureTuple

/-- `ExplainCase`. -/
structure ExplainCase where
  user : String
  relation : String
  object : String
  expectReasons : List String
  description : String

/-- `FixtureTest`. -/
structure FixtureTest where
  name : String
  description : String
  check : List (CheckCase C)
  listObjects : List (ListCase C)
  listSubjects : List (ListSubjectsCase C)
  listActions : List (ListActionsCase C)
  explain : List ExplainCase

end Cases

/-! ## Texts -/

/-- `first`: the first text that is not empty. -/
def first (texts : List String) : String := (texts.find? (· ≠ "")).getD ""

/-- The texts of a list in order. -/
def sortedCopy (items : List String) : List String := items.insertionSort (· ≤ ·)

/-- `setText`. -/
def setText (items : List String) : String := "[" ++ String.intercalate ", " (sortedCopy items) ++ "]"

/-- `actionsText`: permissions and relations apart, if there are permissions. -/
def actionsText (items perms : List String) : String :=
  if perms = [] then setText items
  else "may " ++ setText (items.filter (· ∈ perms)) ++ " · is " ++ setText (items.filter (· ∉ perms))

/-- `fmt.Sprint` of a list of texts. -/
def sprint (items : List String) : String := "[" ++ String.intercalate " " items ++ "]"

/-- `keysOf`: the keys of a set. -/
def keysOf (got : List String) : List String := sortedCopy got.dedup

/-- `sameSet`: a set against a list, whose duplicates are ignored. -/
def sameSet (got want : List String) : Bool :=
  got.dedup.length = want.dedup.length && want.dedup.all (· ∈ got)

/-! ## Reports -/

/-- The kinds of cases. -/
inductive Kind
  | check
  | listObjects
  | listSubjects
  | listActions
  | explain
deriving DecidableEq, Repr

/-- `Result`. The kind is missing where the run of the test has not begun. -/
structure Result where
  name : String
  failed : Bool
  detail : String
  test : ℕ
  note : String
  kind : Option Kind
  user : String
  relation : String
  object : String
  expected : List String
  actual : List String
deriving DecidableEq, Repr

/-- The result of an assertion that has failed. -/
def Result.fail (current : Result) (name detail : String) : Result :=
  { current with name := name, detail := detail, failed := true }

/-- The result of an assertion that has passed. -/
def Result.pass (current : Result) (name : String) : Result := { current with name := name, failed := false }

/-- The current assertion, before it is decided. -/
def Result.current (kind : Kind) (user relation object note : String) : Result :=
  ⟨"", false, "", 0, note, some kind, user, relation, object, [], []⟩

variable {C J : Type}

variable (C J) in
/-- What the runner needs to know of a search for objects or for subjects. -/
structure Search where
  kind : Kind
  user : String
  object : String
  entity : String
  failName : String
  label : String → List String → String
  typ : String
  assertions : Keyed.Table (@Prod.fst String (List String))
  notes : String → String
  description : String
  context : Option C
  contextualTuples : List FixtureTuple
  query : Ref → String → Option J → Option (List ContextualTuple) → SearchQuery J

/-- A search for objects. -/
def ListCase.search (l : ListCase C) (test : String) : Search C J where
  kind := .listObjects
  user := l.user
  object := l.typ
  entity := l.user
  failName := test ++ "/list_objects"
  label rel want := test ++ ": list " ++ l.typ ++ " " ++ rel ++ " for " ++ l.user ++ " = " ++ setText want
  typ := l.typ
  assertions := l.assertions
  notes := l.notes
  description := l.description
  context := l.context
  contextualTuples := l.contextualTuples
  query u rel := .listObjects u.typ u.id rel l.typ

/-- A search for subjects. -/
def ListSubjectsCase.search (l : ListSubjectsCase C) (test : String) : Search C J where
  kind := .listSubjects
  user := l.typ
  object := l.object
  entity := l.object
  failName := test ++ "/list_subjects"
  label rel want := test ++ ": subjects " ++ l.typ ++ " " ++ rel ++ " on " ++ l.object ++ " = " ++ setText want
  typ := l.typ
  assertions := l.assertions
  notes := l.notes
  description := l.description
  context := l.context
  contextualTuples := l.contextualTuples
  query o rel := .listSubjects l.typ rel o.typ o.id

variable (C J) in
/-- An assertion of a test. -/
inductive Assertion
  | check (c : CheckCase C) (relation : String) (want : Bool)
  | search (l : Search C J) (relation : String) (want : List String)
  | listActions (a : ListActionsCase C)
  | explain (e : ExplainCase)

variable (C J) in
/-- A result, and the assertion that it is about, unless the case could not be read. -/
structure Report where
  assertion : Option (Assertion C J)
  result : Result

/-! ## Questions -/

section Questions

variable (marshal : C → Option J)

/-- What a check asks about one of its relations. -/
def CheckCase.form (c : CheckCase C) : Except String (CheckForm J) := do
  match ← contextualTuplesJSON c.contextualTuples with
  | some tuples => .ok (.withContextualTuples (c.context.bind marshal) tuples)
  | none => .ok (if c.context.isSome then .withContext (c.context.bind marshal) else .plain)

/-- What the actions of a subject are asked with. -/
def ListActionsCase.query (a : ListActionsCase C) (u o : Ref) : Except String (SearchQuery J) := do
  let tuples ← contextualTuplesJSON a.contextualTuples
  .ok (.listActions u.typ u.id o.typ o.id (a.context.bind marshal) tuples)

/-- What an explanation is asked with. -/
def ExplainCase.query (e : ExplainCase) (u o : Ref) : ExplainQuery := ⟨u.typ, u.id, e.relation, o.typ, o.id⟩

end Questions

/-! ## The runs -/

/-- The state of a run: whether the transaction has failed, and the note of the last assertion. -/
structure CaseState where
  aborted : Bool
  note : String
deriving DecidableEq, Repr

/-- `fresh`: back to the savepoint. -/
def fresh (s : CaseState) : CaseState := { s with aborted := false }

/-- What a statement says in a transaction that has failed. -/
def abortedText : String :=
  "ERROR: current transaction is aborted, commands ignored until end of transaction block (SQLSTATE 25P02)"

/-- A query for one value: an error is reported wherever it is raised. -/
def scalar {A : Type} (answer : Except String A) (s : CaseState) : Except String A × CaseState :=
  if s.aborted then (.error abortedText, s)
  else (answer, { s with aborted := match answer with | .error _ => true | .ok _ => false })

section Runs

variable (engine : Engine J) (marshal : C → Option J)

/-- `runFixtureCheck`. -/
def runFixtureCheck (u : Ref) (rel : String) (o : Ref) (c : CheckCase C) (s : CaseState) :
    Except String Bool × CaseState :=
  match c.form marshal with
  | .error e => (.error e, s)
  | .ok form => scalar (engine.check ⟨u.typ, u.id, rel, o.typ, o.id, form⟩) s

/-- One relation of a check. -/
def runCheckAssertion (tc : FixtureTest C) (c : CheckCase C) (u o : Ref) (x : String × Bool) (s : CaseState) :
    Report C J × CaseState :=
  let name := tc.name ++ ": " ++ c.user ++ " " ++ x.1 ++ " " ++ c.object ++ " = " ++ toString x.2
  let note := first [c.notes x.1, c.description, tc.description]
  let current := { Result.current .check c.user x.1 c.object note with expected := [toString x.2] }
  let (got, s) := runFixtureCheck engine marshal u x.1 o c (fresh { s with note := note })
  match got with
  | .error e => (⟨some (.check c x.1 x.2), current.fail name e⟩, s)
  | .ok got =>
    let current := { current with actual := [toString got] }
    (⟨some (.check c x.1 x.2),
      if got ≠ x.2 then current.fail name ("got " ++ toString got) else current.pass name⟩, s)

/-- A check. -/
def runCheck (tc : FixtureTest C) (c : CheckCase C) (s : CaseState) : List (Report C J) × CaseState :=
  let unread := fun e => ([⟨none, (Result.current .check c.user "" c.object s.note).fail (tc.name ++ "/check") e⟩], s)
  match parseRef c.user with
  | .error e => unread e
  | .ok u =>
    match parseRef c.object with
    | .error e => unread e
    | .ok o => sweep (runCheckAssertion engine marshal tc c u o) c.assertions.rows s

/-- One relation of a search. -/
def runSearchAssertion (tc : FixtureTest C) (l : Search C J) (entity : Ref) (x : String × List String)
    (s : CaseState) : Report C J × CaseState :=
  let name := l.label x.1 x.2
  let note := first [l.notes x.1, l.description, tc.description]
  let s := { s with note := note }
  let current := Result.current l.kind l.user x.1 l.object note
  match contextualTuplesJSON l.contextualTuples with
  | .error e => (⟨some (.search l x.1 x.2), current.fail name e⟩, s)
  | .ok tuples =>
    let (rows, aborted) := engine.search.query s.aborted (l.query entity x.1 (l.context.bind marshal) tuples)
    let s := { s with aborted := aborted }
    match rows.read with
    | .error e => (⟨some (.search l x.1 x.2), current.fail name e⟩, s)
    | .ok ids =>
      let got := ids.map (l.typ ++ ":" ++ ·)
      let current := { current with expected := sortedCopy x.2, actual := keysOf got }
      (⟨some (.search l x.1 x.2),
        if sameSet got x.2 then current.pass name
        else current.fail name ("expected " ++ setText x.2 ++ ", got " ++ setText (keysOf got))⟩, s)

/-- A search. Only its first relation starts from the savepoint. -/
def runSearch (tc : FixtureTest C) (l : Search C J) (s : CaseState) : List (Report C J) × CaseState :=
  let s := fresh s
  match parseRef l.entity with
  | .error e => ([⟨none, (Result.current l.kind l.user "" l.object s.note).fail l.failName e⟩], s)
  | .ok entity => sweep (runSearchAssertion engine marshal tc l entity) l.assertions.rows s

/-- `permissionNames`. -/
def permissionNames : Except String (List String) :=
  engine.kinds.map fun kinds => (kinds.filter (·.2 = "permission")).map Prod.fst

/-- The permissions, which are loaded once. -/
def loadPermissions (s : CaseState × Option (List String)) : Except String (List String) × CaseState :=
  match s.2 with
  | some perms => (.ok perms, s.1)
  | none => scalar (permissionNames engine) s.1

/-- The actions of a subject. -/
def runActions (tc : FixtureTest C) (a : ListActionsCase C) (s : CaseState × Option (List String)) :
    Report C J × CaseState × Option (List String) :=
  let subject := tc.name ++ ": actions of " ++ a.user ++ " on " ++ a.object
  match loadPermissions engine (fresh s.1, s.2) with
  | (.error e, state) =>
    (⟨some (.listActions a), (Result.current .listActions a.user "" a.object state.note).fail subject
      ("relation kinds: " ++ e)⟩, state, none)
  | (.ok perms, state) =>
    let name := subject ++ " = " ++ actionsText a.expect perms
    let note := first [a.description, tc.description]
    let state := { state with note := note }
    let current := Result.current .listActions a.user "" a.object note
    match parseRef a.user, parseRef a.object with
    | .ok u, .ok o =>
      match a.query marshal u o with
      | .error e => (⟨some (.listActions a), current.fail name e⟩, state, some perms)
      | .ok q =>
        let (rows, aborted) := engine.search.query state.aborted q
        let state := { state with aborted := aborted }
        match rows.read with
        | .error e => (⟨some (.listActions a), current.fail name e⟩, state, some perms)
        | .ok got =>
          let current := { current with expected := sortedCopy a.expect, actual := keysOf got }
          (⟨some (.listActions a),
            if sameSet got a.expect then current.pass name
            else current.fail name ("expected " ++ actionsText a.expect perms ++ ", got " ++
              actionsText (keysOf got) perms)⟩, state, some perms)
    | _, _ => (⟨some (.listActions a), current.fail name "bad reference"⟩, state, some perms)

/-- An explanation. The reasons are compared as they are printed. -/
def runExplain (tc : FixtureTest C) (e : ExplainCase) (s : CaseState) : Report C J × CaseState :=
  let name := tc.name ++ ": explain " ++ e.user ++ " " ++ e.relation ++ " " ++ e.object
  let note := first [e.description, tc.description]
  let s := fresh { s with note := note }
  let current := Result.current .explain e.user e.relation e.object note
  match parseRef e.user, parseRef e.object with
  | .ok u, .ok o =>
    let (explained, s) := scalar (engine.explain (e.query u o)) s
    match explained with
    | .error text => (⟨some (.explain e), current.fail name text⟩, s)
    | .ok reasons =>
      let current := { current with expected := e.expectReasons, actual := reasons }
      (⟨some (.explain e),
        if sprint reasons ≠ sprint e.expectReasons then
          current.fail name ("expected reasons " ++ sprint e.expectReasons ++ ", got " ++ sprint reasons)
        else current.pass name⟩, s)
  | _, _ => (⟨some (.explain e), current.fail name "bad reference"⟩, s)

/-- `runFixtureCase`: the reports, and whether the transaction has failed after them. -/
def runFixtureCase (tc : FixtureTest C) (aborted : Bool) : List (Report C J) × Bool :=
  if aborted then
    -- the savepoint is refused
    ([⟨none, ⟨tc.name, true, abortedText, 0, tc.description, none, "", "", "", [], []⟩⟩], true)
  else
    let (checks, s) := sweep (runCheck engine marshal tc) tc.check ⟨false, tc.description⟩
    let (objects, s) := sweep (runSearch engine marshal tc) (tc.listObjects.map (·.search tc.name)) s
    let (subjects, s) := sweep (runSearch engine marshal tc) (tc.listSubjects.map (·.search tc.name)) s
    let (actions, s) := sweep (runActions engine marshal tc) tc.listActions (s, none)
    let (explained, _) := sweep (runExplain engine tc) tc.explain s.1
    (checks.flatten ++ objects.flatten ++ subjects.flatten ++ actions ++ explained, false)

/-- The tests of a fixture. -/
def runTests (tests : List (FixtureTest C)) (aborted : Bool) : List (Report C J) × Bool :=
  let (reports, aborted) := sweep (runFixtureCase engine marshal) tests aborted
  ((reports.zipIdx.map fun (rs, i) => rs.map fun r => { r with result := { r.result with test := i } }).flatten,
    aborted)

end Runs

end PgAuthz.Fixture
