import Mathlib

/-!
# Decisions with policy hooks

The public decision of the policies is the answer of the relationship graph, unless a mounted hook
vetoes it. A hook sees a normalised description of the request and emits denials. The denials of all
hooks are aggregated with their source, bounded in number, and any of them makes the decision negative.
With hooks mounted and no configured environment a denial of the platform is added.

The aggregation keeps a denial that is a text or an object and drops any other value.

## Main definitions

* `Json`, `holds`: values of a query, and when a reference to one counts as true
* `Input`, `Env`: a query, and what it is evaluated in
* `hookInput`: the description of a request that hooks see
* `structured`, `allDecisionDenials`, `hooksPass`: aggregation of denials
* `checkAccess`, `graphAllow`, `allow`: the answer of the graph and the decision

## Main results

* `hooksPass_iff`: the caps never hide a veto, so that the aggregation passes exactly when the guard is
  off and no denial is a text or an object
* `allow_iff`: the decision in these terms
-/

namespace PgAuthz.Opa

/-! ## Values -/

/-- A value of a query. -/
inductive Json
  | null
  | bool (b : Bool)
  | num (n : ℚ)
  | str (s : String)
  | arr (items : List Json)
  | obj (fields : List (String × Json))

/-- The fields of an object. -/
abbrev Fields := List (String × Json)

namespace Json

/-- The field `key` of an object. -/
def get? : Json → String → Option Json
  | obj fields, key => fields.lookup key
  | _, _ => none

/-- The texts and the objects, the shapes of a denial that the hook contract names. -/
def isDenial : Json → Bool
  | str _ => true
  | obj _ => true
  | _ => false

@[simp]
theorem get?_type (t x : Json) : (obj [("type", t), ("id", x)]).get? "type" = some t := rfl

@[simp]
theorem get?_id (t x : Json) : (obj [("type", t), ("id", x)]).get? "id" = some x := rfl

end Json

/-- A reference in the body of a rule is true unless it is undefined or `false`. -/
def holds : Option Json → Bool
  | none => false
  | some (.bool b) => b
  | some _ => true

/-- The value of a reference that is true. -/
def given (x : Option Json) : Option Json :=
  if holds x then x else none

@[simp]
theorem holds_str (s : String) : holds (some (.str s)) = true := rfl

@[simp]
theorem holds_obj (fields : Fields) : holds (some (.obj fields)) = true := rfl

@[simp]
theorem holds_none : holds none = false := rfl

/-! ## Queries -/

/-- One entry of a batch. -/
structure EvalItem where
  subject : Option Json := none
  action : Option Json := none
  resource : Option Json := none
  context : Option Json := none

/-- The window of a paginated search. -/
structure Page where
  limit : ℤ
  offset : Option ℤ := none
  after : Option String := none

/-- The input document of a query. A field that is absent is `none`. -/
structure Input where
  token : Option Json := none
  store : Option String := none
  subject : Option Json := none
  action : Option Json := none
  resource : Option Json := none
  context : Option Json := none
  contextualTuples : Option Json := none
  evaluatedAt : Option Json := none
  deployment : Option Json := none
  subjectType : Option Json := none
  page : Option Page := none
  evaluations : Option (List EvalItem) := none
  semantic : Option String := none

/-- The settings of the policies. -/
structure Config where
  defaultStore : Option String
  requireTokenForReads : Bool
  allowUnknownEnvironment : Bool
  hookFilteredEnumeration : Bool
  allowUnfilteredEnumeration : Bool
  hookFilterMaxCandidates : Option ℕ

/-- What the authentication policies make of a token that verifies. -/
structure Caller where
  subjectType : Option Json
  subjectId : Option Json
  roles : List Json
  claims : Json
  onBehalfOf : Option Json

/-- The description of a request that hooks are evaluated against. -/
structure HookInput where
  apiVersion : String
  operation : String
  evaluatedAt : Json
  deployment : Json
  store : String
  subject : Json
  actor : Json
  action : Json
  resource : Json
  context : Json

/-- A mounted hook. Its deny rule emits a set of arbitrary values, listed in their order. -/
structure Hook where
  name : String
  deny : HookInput → List Json

/-- An access check of the engine. -/
structure Check where
  userType : String
  userId : String
  relation : String
  objectType : String
  objectId : String
deriving DecidableEq, Repr

/-- The window of a list call: by offset or after the last id of the previous page. -/
inductive Window
  | offset (limit : ℤ) (offset : ℤ)
  | after (limit : ℤ) (after : String)

/--
What a query is evaluated in: the settings, the clock, the authentication policies, the mounted hooks,
and the answers of the engine at one state of the store. `none` is an error.
-/
structure Env where
  config : Config
  now : Json
  authn : Json → Option Caller
  globalHooks : List Hook
  storeHooks : String → List Hook
  decide : String → Check → Option Fields → Option Bool
  decideWithTuples : String → Check → Option Fields → Json → Option Bool
  listObjects : String → Json → Json → Json → Json → Option Json → Option (Finset String)
  listObjectsPage : String → Json → Json → Json → Json → Option Json → Window → Option (List String)
  listSubjects : String → Json → Json → Json → Json → Option (Finset String)
  listSubjectsPage : String → Json → Json → Json → Json → Window → Option (List String)
  listActions : String → Json → Json → Json → Json → Option Json → Option (Finset String)

variable (e : Env) (i : Input)

/-! ## Store and subject -/

/-- The store of the query or the configured default. -/
def store : Option String :=
  i.store <|> e.config.defaultStore

/-- The caller behind the token of the query. -/
def caller : Option Caller :=
  if holds i.token then i.token.bind e.authn else none

/-- The type of the subject: from the token, or without one from the query. -/
def subjectType : Option Json :=
  if holds i.token then (caller e i).bind (·.subjectType) else i.subject.bind (·.get? "type")

/-- The id of the subject. -/
def subjectId : Option Json :=
  if holds i.token then (caller e i).bind (·.subjectId) else i.subject.bind (·.get? "id")

/-- A verified token, or an explicit subject where tokens are not required. -/
def subjectValid : Bool :=
  if holds i.token then (caller e i).isSome else !e.config.requireTokenForReads && holds i.subject

/-! ## The hook input -/

/-- The subject as the platform resolved it. -/
def hookSubject : Option Json :=
  match subjectId e i with
  | some sid =>
    if holds (some sid) then (subjectType e i).map fun st => .obj [("type", st), ("id", sid)]
    else some (i.subject.getD (.obj []))
  | none => some (i.subject.getD (.obj []))

/-- The actor of a query without a verified token. -/
def noActor : Json :=
  .obj [("id", .str ""), ("roles", .arr []), ("claims", .obj []), ("on_behalf_of", .obj [])]

/-- Who is asking, with the verified roles and claims. -/
def hookDecisionActor : Option Json :=
  match caller e i with
  | some c => c.subjectId.map fun sid =>
      .obj [("id", sid), ("roles", .arr c.roles), ("claims", c.claims),
        ("on_behalf_of", c.onBehalfOf.getD (.obj []))]
  | none => some noActor

/-- The deployment of the query, unknown where it has none. -/
def deployment : Json :=
  i.deployment.getD (.obj [("environment", .str "unknown")])

/-- The timestamp of the query, the clock where it has none. -/
def evaluatedAt : Json :=
  i.evaluatedAt.getD e.now

/-- The description of the request that hooks see. It is undefined where a part is. -/
def hookInput : Option HookInput := do
  let s ← store e i
  let subject ← hookSubject e i
  let actor ← hookDecisionActor e i
  return {
    apiVersion := "pgauthz.hooks/v1"
    operation := "decision"
    evaluatedAt := evaluatedAt e i
    deployment := deployment i
    store := s
    subject := subject
    actor := actor
    action := i.action.getD (.str "")
    resource := i.resource.getD (.obj [])
    context := i.context.getD (.obj []) }

/-! ## Denials -/

/-- Where a denial comes from. -/
structure Source where
  tier : String
  store : Option String
  hook : String
deriving DecidableEq, Repr

/-- A denial as it is reported. The source always wins over the value of the hook. -/
structure Denial extends Source where
  code : String
  message : String
deriving DecidableEq, Repr

/-- The first `n` characters of a text, and nothing of any other value. -/
def bounded : Json → ℕ → String
  | .str s, n => String.ofList (s.toList.take n)
  | _, _ => ""

/-- The code of an object denial. -/
def denialCode (fields : Fields) : Json :=
  match (fields.lookup "code").getD (.str "denied") with
  | .str c => .str c
  | _ => .str "denied"

/-- The report of an emitted value. It is undefined for a value that is neither text nor object. -/
def structured (src : Source) : Json → Option Denial
  | .str s => some { src with code := "denied", message := bounded (.str s) 256 }
  | .obj fields => some { src with
      code := bounded (denialCode fields) 64
      message := bounded ((fields.lookup "message").getD (.str "")) 256 }
  | _ => none

/-- Every global hook, and the hooks of the store, each with its source. -/
def applicable (s : String) : List (Source × Hook) :=
  e.globalHooks.map (fun h => (⟨"global", none, h.name⟩, h)) ++
    (e.storeHooks s).map (fun h => (⟨"store", some s, h.name⟩, h))

/-- The names of the applicable hooks. -/
def hooksLoaded : Option (List String) :=
  (store e i).map fun s =>
    (e.globalHooks.map (·.name) ++
      (e.storeHooks s).map fun h => "stores/" ++ s ++ "/" ++ h.name).mergeSort

/-- A hook is applicable. -/
def hooked : Bool :=
  match hooksLoaded e i with
  | some names => !names.isEmpty
  | none => false

/-- The bound on the denials of one hook. -/
def maxPerHook : ℕ := 16

/-- The bound on all denials. -/
def maxDenials : ℕ := 64

/-- The denials of one hook. -/
def capped (hi : HookInput) (h : Source × Hook) : List Denial :=
  ((h.2.deny hi).filterMap (structured h.1)).take maxPerHook

/-- The environment of a deployment is not configured. -/
def environmentUnknown (d : Json) : Bool :=
  match d.get? "environment" with
  | some (.str "unknown") => true
  | _ => false

/-- The environment guard is active. -/
def guarded : Bool :=
  hooked e i && environmentUnknown (deployment i) && !e.config.allowUnknownEnvironment

/-- The denial of the environment guard. -/
def envGuardDenials : List Denial :=
  if guarded e i then
    [{ tier := "platform", store := none, hook := "environment_guard"
       code := "deployment_environment_unknown"
       message := "DEPLOYMENT_ENVIRONMENT is not configured; environment-gated hooks cannot be " ++
         "evaluated safely (set it, or opt out with ALLOW_UNKNOWN_DEPLOYMENT_ENVIRONMENT=true)" }]
  else []

/-- The denials of the platform, the global hooks and the hooks of the store. -/
def allDecisionDenials : List Denial :=
  envGuardDenials e i ++
    match hookInput e i with
    | some hi => (applicable e hi.store).flatMap (capped hi)
    | none => []

/-- The key that denials are ordered by. -/
def denialKey (d : Denial) : List String :=
  [d.tier, d.store.getD "", d.hook, d.code, d.message]

/-- Denials in their order. -/
def ordered (ds : List Denial) : List Denial :=
  ds.mergeSort fun a b => decide (denialKey a ≤ denialKey b)

/-- The reported denials. -/
def hookDenials : List Denial :=
  (ordered (allDecisionDenials e i)).take maxDenials

/-- No denial is reported. -/
def hooksPass : Bool :=
  (hookDenials e i).length == 0

/-! ## The answer of the graph -/

/-- A text of a request body, empty where it is null. -/
def nativeString : Json → Option String
  | .null => some ""
  | .str s => some s
  | _ => none

/-- The context of a request body. -/
def nativeContext : Option Json → Option (Option Fields)
  | none => some none
  | some .null => some none
  | some (.obj fields) => some (some fields)
  | some _ => none

/-- The check that a request body asks for. An empty part is refused. -/
def nativeCheck (userType userId relation objectType objectId : Json) : Option Check := do
  let userType ← nativeString userType
  let userId ← nativeString userId
  let relation ← nativeString relation
  let objectType ← nativeString objectType
  let objectId ← nativeString objectId
  if userType = "" ∨ userId = "" ∨ relation = "" ∨ objectType = "" ∨ objectId = "" then none
  else return ⟨userType, userId, relation, objectType, objectId⟩

/-- A single check of the data client, with a context and with contextual tuples where it has them. -/
def checkAccess (s : String) (userType userId relation objectType objectId : Json)
    (context tuples : Option Json) : Option Bool := do
  let check ← nativeCheck userType userId relation objectType objectId
  let ctx ← nativeContext context
  match tuples with
  | none => e.decide s check ctx
  | some ts => e.decideWithTuples s check ctx ts

/-- The check that the query asks for. -/
def graphCheck : Option Bool := do
  let s ← store e i
  let st ← subjectType e i
  let sid ← subjectId e i
  let action ← i.action
  let resource ← i.resource
  let rt ← resource.get? "type"
  let rid ← resource.get? "id"
  checkAccess e s st sid action rt rid (given i.context) (given i.contextualTuples)

/-- The graph allows the query. The four rules of the source differ in the arguments that are given. -/
def graphAllow : Bool :=
  subjectValid e i && graphCheck e i == some true

/-- The public decision. -/
def allow : Bool :=
  graphAllow e i && hooksPass e i

/-! ## The aggregation -/

/-- Everything that the applicable hooks emit. -/
def emitted (hi : HookInput) : List Json :=
  (applicable e hi.store).flatMap fun h => h.2.deny hi

/-- A hook emits a text or an object. -/
def vetoed (hi : HookInput) : Bool :=
  (emitted e hi).any Json.isDenial

theorem structured_isSome (src : Source) (j : Json) : (structured src j).isSome = j.isDenial := by
  cases j <;> rfl

theorem structured_eq_none_iff (src : Source) (j : Json) :
    structured src j = none ↔ j.isDenial = false := by
  rw [← structured_isSome src j, Option.isSome_eq_false_iff, Option.isNone_iff_eq_none]

theorem capped_eq_nil_iff (hi : HookInput) (h : Source × Hook) :
    capped hi h = [] ↔ ∀ j ∈ h.2.deny hi, j.isDenial = false := by
  have hcap : maxPerHook ≠ 0 := by decide
  rw [capped, List.take_eq_nil_iff, or_iff_right hcap, List.filterMap_eq_nil_iff]
  simp only [structured_eq_none_iff]

theorem vetoed_eq_false_iff (hi : HookInput) :
    vetoed e hi = false ↔ ∀ h ∈ applicable e hi.store, capped hi h = [] := by
  simp only [vetoed, emitted, List.any_eq_false, List.mem_flatMap, capped_eq_nil_iff,
    Bool.not_eq_true]
  constructor
  · intro hv h hh j hj
    exact hv j ⟨h, hh, hj⟩
  · rintro hv j ⟨h, hh, hj⟩
    exact hv h hh j hj

theorem envGuardDenials_eq_nil_iff : envGuardDenials e i = [] ↔ guarded e i = false := by
  unfold envGuardDenials
  by_cases hg : guarded e i = true
  · simp [hg]
  · simp [hg]

theorem hookDenials_eq_nil_iff : hookDenials e i = [] ↔ allDecisionDenials e i = [] := by
  have hcap : maxDenials ≠ 0 := by decide
  rw [hookDenials, List.take_eq_nil_iff, or_iff_right hcap]
  -- sorting keeps the length
  rw [← List.length_eq_zero_iff, ordered, List.length_mergeSort, List.length_eq_zero_iff]

/-- **The aggregation passes exactly when the guard is off and no hook emits a text or an object.** -/
theorem hooksPass_iff :
    hooksPass e i = true ↔
      guarded e i = false ∧ ∀ hi, hookInput e i = some hi → vetoed e hi = false := by
  have hlen : hooksPass e i = true ↔ hookDenials e i = [] := by
    simp [hooksPass]
  rw [hlen, hookDenials_eq_nil_iff, allDecisionDenials, List.append_eq_nil_iff,
    envGuardDenials_eq_nil_iff]
  refine and_congr_right fun _ => ?_
  cases hhi : hookInput e i with
  | none => simp
  | some hi =>
    simp only [List.flatMap_eq_nil_iff, Option.some.injEq, forall_eq']
    exact (vetoed_eq_false_iff e hi).symm

/-- **The decision: the graph allows, the guard is off and no hook emits a text or an object.** -/
theorem allow_iff :
    allow e i = true ↔ graphAllow e i = true ∧ guarded e i = false ∧
      ∀ hi, hookInput e i = some hi → vetoed e hi = false := by
  rw [allow, Bool.and_eq_true, hooksPass_iff]

theorem vetoed_of_emitted_nil {hi : HookInput} (h : emitted e hi = []) : vetoed e hi = false := by
  rw [vetoed, h]
  rfl

end PgAuthz.Opa
