import PgAuthz.Daemon.Issuers

/-!
# The gate of the management interface

Every management request passes one gate. It finds the first management rule of the token's issuer
that the token satisfies, and the rule says what the credential may manage: everything, one issuer
with its stores, or what another store decides. The last kind is a delegated rule. The token becomes
a subject of the deciding store, and each request asks that store for the relation it needs.

## Main definitions

* `Question`, `Delegated`, `AdminScope`: what a passing credential may manage
* `AdminRequest`: the management requests, with their method and path
* `delegatedNeeds`, `neededCapability`: what a request needs
* `adminGate`, `requireAdmin`: the gate

## Main results

* `delegatedNeeds_store`: what a request on a store needs, for every store with a plain name
* `adminGate_delegated`: a delegated scope carries the needs of its request
-/

namespace PgAuthz.Daemon

/-! ## Texts -/

/-- `strings.HasPrefix`. -/
def startsWith (s start : String) : Bool := start.toList.isPrefixOf s.toList

/-- `strings.TrimPrefix`. -/
def trimStart (s start : String) : String :=
  if startsWith s start then String.ofList (s.toList.drop start.length) else s

/-- `strings.Split` on one character. -/
def splitChar (s : String) (sep : Char) : List String :=
  (s.toList.splitOnP (· == sep)).map String.ofList

/-- `strings.Fields`. -/
def fields (s : String) : List String :=
  ((s.toList.splitOnP isSpace).filter (· ≠ [])).map String.ofList

/-! ## Scopes -/

/-- What the deciding store is asked: a relation of the subject on an object. -/
structure Question where
  relation : String
  objType : String
  objId : String
deriving DecidableEq, Repr

/-- A contextual membership of the subject in a team. -/
structure Membership where
  userType : String
  userId : String
  relation : String
  objectType : String
  objectId : String
deriving DecidableEq, Repr

/-- What a request needs of a delegated credential: a relation on the store that it names, empty if
it names none, and a relation of the platform or the registry. -/
structure Needs where
  storeRel : String
  plat : Question
deriving DecidableEq, Repr

/-- `delegated`: the subject that the token became, the `pgauthz:` scopes of the token, the deciding
store's answers and the needs of the request. -/
structure Delegated where
  store : String
  subjType : String
  subjId : String
  ctxTuples : List Membership
  scopes : List String
  check : Question → Except String Bool
  needs : Needs

/-- `allowed`: an error of the deciding store is a refusal. -/
def Delegated.allowed (d : Delegated) (q : Question) : Bool :=
  match d.check q with
  | .ok granted => granted
  | .error _ => false

/-- The reason that `allowed` remembers for a refusal. -/
def Delegated.why (d : Delegated) (q : Question) : String :=
  match d.check q with
  | .error e => "the " ++ d.store ++ " store could not decide " ++ d.subjType ++ ":" ++ d.subjId ++
      " " ++ q.relation ++ " on " ++ q.objType ++ ":" ++ q.objId ++ ": " ++ e
  | .ok _ => "the " ++ d.store ++ " store does not grant " ++ d.subjType ++ ":" ++ d.subjId ++
      " " ++ q.relation ++ " on " ++ q.objType ++ ":" ++ q.objId

/-- `adminScope`: what a passing credential may manage. -/
structure AdminScope where
  platform : Bool
  issuer : String
  stores : List String
  only : Option (List String)
  caps : List String
  decide : Option Delegated

/-- `platformWide`. -/
def AdminScope.platformWide (s : AdminScope) : Bool :=
  match s.decide with
  | some d => d.needs.plat.relation != "" && d.allowed d.needs.plat
  | none => s.platform

/-- `covers`. -/
def AdminScope.covers (s : AdminScope) (issuer : String) : Bool :=
  s.platformWide || issuer == s.issuer

/-- `matchesAny`. -/
def matchesAny (lib : GoLib) (patterns : List String) (store : String) : Bool :=
  patterns.any fun p => lib.matchesPattern p store

/-- `coversStore`. -/
def AdminScope.coversStore (lib : GoLib) (s : AdminScope) (store : String) : Bool :=
  match s.decide with
  | some d => d.needs.storeRel != "" && d.allowed ⟨d.needs.storeRel, "store", store⟩
  | none =>
    if s.only.any fun only => !matchesAny lib only store then false
    else s.platform || matchesAny lib s.stores store

/-- `refusal`, where `asked` is the last question the deciding store did not grant. -/
def AdminScope.refusal (s : AdminScope) (asked : Option Question) (what : String) : String :=
  match s.decide, asked with
  | some d, some q => "management refused: " ++ d.why q
  | _, _ => "management refused: " ++ what

/-- `can`: the credential holds the capability. -/
def AdminScope.can (s : AdminScope) (capability : String) : Bool :=
  s.caps.isEmpty || s.decide.isSome || s.caps.any fun c => c == "manage" || c == capability

/-! ## Requests -/

/-- The methods of the management routes. A `HEAD` request reaches the handlers of `GET` and is
treated as one everywhere. -/
inductive Method
  | get
  | put
  | post
  | delete
deriving DecidableEq, Repr

/-- `storeUpsertReq`. -/
structure StoreUpsert where
  description : Option String
  docsUrl : Option String
  retired : Option Bool
deriving DecidableEq, Repr

/-- The parts of a test fixture that the handler reads. -/
structure Fixture where
  modelFile : String
  model : String
  store : String
  valid : Bool
deriving DecidableEq, Repr

/-- `testModelReq`; a fixture that is blank or does not parse is none. -/
structure TestModel where
  fixture : Option Fixture
  openfga : Bool
  store : String
  keepStore : Bool
deriving DecidableEq, Repr

/-- `publishReq`. -/
structure Publish where
  fromStore : String
  definition : Bool
  openfga : Bool
deriving DecidableEq, Repr

/-- The management requests: one constructor for each route, with the values of its path, its query
and its body. A body that does not decode is none. -/
inductive AdminRequest
  | issuers
  | issuerBindings (issuer : String)
  | issuerBindingsAudit (issuer : String) (limit : ℤ) (before : Option (Option ℤ))
  | setIssuerBinding (body : Option Binding)
  | deleteIssuerBinding (issuer : String)
  | stores
  | store (s : String)
  | upsertStore (s : String) (body : Option StoreUpsert)
  | deleteStore (s : String) (purgeAudit purgeDecisions : Bool)
  | purgeStoreDecisions (s : String) (storeId : Option ℤ)
  | storeDeletions (s : String)
  | storeModel (s : String)
  | applyModel (s : String) (model : Option String) (plan : Bool)
  | setStoreGroup (s : String) (group : Option String)
  | recorders (s : String)
  | setRecorder (s role : String) (actions : Option (List String))
  | deleteRecorder (s role : String)
  | namespaces (s : String)
  | setNamespaceAccess (s ns role : String) (body : Option (Bool × Bool))
  | deleteNamespaceAccess (s ns role : String)
  | subjectObjects (s typ id : String) (limit : Option ℤ)
  | subjectExport (s typ id : String) (limit : Option ℤ)
  | groups
  | upsertGroup (group : String) (body : Option (Option String))
  | deleteGroup (group : String)
  | modelConsumers (group : String)
  | grantModelConsumer (group consumer : String)
  | revokeModelConsumer (group consumer : String)
  | models (name : String)
  | testModel (body : Option TestModel)
  | publishModel (name : String) (body : Option Publish)
  | modelRollout (name : String)
deriving DecidableEq, Repr

/-- The method of a request's route. -/
def AdminRequest.method : AdminRequest → Method
  | issuers | issuerBindings .. | issuerBindingsAudit .. | stores | store .. | storeDeletions ..
  | storeModel .. | recorders .. | namespaces .. | subjectObjects .. | subjectExport .. | groups
  | modelConsumers .. | models .. | modelRollout .. => .get
  | setIssuerBinding .. | upsertStore .. | applyModel .. | setStoreGroup .. | setRecorder ..
  | setNamespaceAccess .. | upsertGroup .. | grantModelConsumer .. => .put
  | deleteIssuerBinding .. | deleteStore .. | purgeStoreDecisions .. | deleteRecorder ..
  | deleteNamespaceAccess .. | deleteGroup .. | revokeModelConsumer .. => .delete
  | testModel .. | publishModel .. => .post

/-- The path of a request below `/pgauthz/v1/admin/`. -/
def AdminRequest.path : AdminRequest → String
  | issuers => "issuers"
  | issuerBindings .. | setIssuerBinding .. | deleteIssuerBinding .. => "issuer-bindings"
  | issuerBindingsAudit .. => "issuer-bindings/audit"
  | stores => "stores"
  | store s | upsertStore s _ | deleteStore s .. => "stores/" ++ s
  | purgeStoreDecisions s _ => "stores/" ++ s ++ "/decisions"
  | storeDeletions s => "stores/" ++ s ++ "/deletions"
  | storeModel s | applyModel s .. => "stores/" ++ s ++ "/model"
  | setStoreGroup s _ => "stores/" ++ s ++ "/group"
  | recorders s => "stores/" ++ s ++ "/recorders"
  | setRecorder s role _ | deleteRecorder s role => "stores/" ++ s ++ "/recorders/" ++ role
  | namespaces s => "stores/" ++ s ++ "/namespaces"
  | setNamespaceAccess s ns role _ | deleteNamespaceAccess s ns role =>
    "stores/" ++ s ++ "/namespaces/" ++ ns ++ "/access/" ++ role
  | subjectObjects s typ id _ => "stores/" ++ s ++ "/subjects/" ++ typ ++ "/" ++ id ++ "/objects"
  | subjectExport s typ id _ => "stores/" ++ s ++ "/subjects/" ++ typ ++ "/" ++ id
  | groups => "groups"
  | upsertGroup g _ | deleteGroup g => "groups/" ++ g
  | modelConsumers g => "groups/" ++ g ++ "/consumers"
  | grantModelConsumer g c | revokeModelConsumer g c => "groups/" ++ g ++ "/consumers/" ++ c
  | models .. => "models"
  | testModel .. => "models/test"
  | publishModel name _ => "models/" ++ name ++ "/versions"
  | modelRollout name => "models/" ++ name ++ "/rollout"

/-- Nothing follows the name in the path of the store itself. -/
theorem AdminRequest.path_self {r : AdminRequest} {s : String} (h : r.path = "stores/" ++ s) :
    r.path = "stores/" ++ s ++ "" := by
  rw [h, String.append_empty]

/-- `neededCapability`. -/
def neededCapability (method : Method) (path : String) : String :=
  if method = .post && path == "models/test" then "test"
  else if method = .get then "read"
  else "manage"

/-- The relation that a request on a store needs there, where `rest` is what follows the name of the
store in the path. -/
def storeRelation (method : Method) (rest : String) : String :=
  if startsWith rest "/subjects" then "can_export"
  else if method = .get then "can_view"
  else if rest = "/model" then "can_rollout"
  else "can_manage_access"

/-- `delegatedNeeds`. -/
def delegatedNeeds (method : Method) (p : String) : Needs :=
  if startsWith p "issuer" then ⟨"", "can_manage_issuers", "platform", "default"⟩
  else if p = "models/test" then ⟨"can_run_tests", "can_view", "registry", "default"⟩
  else if startsWith p "models" then
    ⟨"", if method = .get then "can_view" else "can_publish", "registry", "default"⟩
  else if p = "stores" then ⟨"can_view", "can_view_all_stores", "platform", "default"⟩
  else if startsWith p "stores/" then
    -- the first slash after the name of the store starts the rest
    let rest := String.ofList ((p.toList.drop "stores/".length).dropWhile (· ≠ '/'))
    ⟨storeRelation method rest, "can_create_store", "platform", "default"⟩
  else ⟨"", "admin", "platform", "default"⟩

/-- The needs of a request. -/
def AdminRequest.needs (r : AdminRequest) : Needs := delegatedNeeds r.method r.path

/-! ## The gate -/

/-- A verified token: its issuer, client, roles and `scope` claim, and the values at the paths of its
claims. -/
structure Token where
  issuer : String
  client : String
  roles : List String
  scope : String
  stringAt : String → String
  valuesAt : String → List String

/-- What the gate reads of the instance: the issuers in force, the settings, and the answers of a
deciding store to a subject with contextual tuples. -/
structure Gate where
  lib : GoLib
  configs : List Issuer
  subjectIdClaim : String
  adminRole : String
  checkWithContextualTuples : String → String → String → List Membership → Question →
    Except String Bool

/-- `satisfiedBy`: why the token does not satisfy the rule. -/
def satisfiedBy (t : Token) (rule : AdminBinding) : Option String :=
  (rule.scopes.findSome? fun s =>
    if (splitChar t.scope ' ').contains s then none else some ("the token lacks the admin scope " ++ s))
  <|> (rule.claims.findSome? fun c => c.2.findSome? fun v =>
    if (t.valuesAt c.1).contains v then none
    else some ("the token's " ++ c.1 ++ " claim lacks " ++ v))
  <|> (if rule.clients.isEmpty || rule.clients.contains t.client then none
    else some "the token's client is not an admin client")

/-- `delegate`: the token as a subject of the deciding store. -/
def delegate (g : Gate) (t : Token) (d : AdminDecision) (needs : Needs) : Except String Delegated :=
  let claim := if d.subjectClaim = "" then g.subjectIdClaim else d.subjectClaim
  let claim := if claim = "" then "preferred_username" else claim
  match ((splitChar claim ',').map fun c => trimSpace (t.stringAt (trimSpace c))).find? (· ≠ "") with
  | none => .error ("the token has no " ++ claim ++ " claim (the admin rule's decide.subject_claim)")
  | some id =>
    let typ := if d.subjectType = "" then "user" else d.subjectType
    let memberships :=
      t.roles.map (fun role => ⟨typ, id, "member", "team", "role_" ++ role⟩) ++
        (fields t.scope).map fun s => ⟨typ, id, "member", "team", "scope_" ++ s⟩
    let scopes := ((fields t.scope).filter fun s => startsWith s "pgauthz:").map fun s =>
      trimStart s "pgauthz:"
    if scopes.isEmpty then
      .error ("the token carries no pgauthz scope (pgauthz:test, pgauthz:read, pgauthz:manage, " ++
        "pgauthz:ci or pgauthz:admin): it was not issued for this API's management")
    else .ok ⟨d.store, typ, id, memberships, scopes,
      g.checkWithContextualTuples d.store typ id memberships, needs⟩

/-- What a satisfied rule lets the token manage. -/
def ruleScope (g : Gate) (t : Token) (needs : Needs) (rule : AdminBinding) :
    Except String AdminScope :=
  match satisfiedBy t rule with
  | some reason => .error reason
  | none =>
    match rule.decide with
    | some d => (delegate g t d needs).map fun d => ⟨false, t.issuer, [], none, [], some d⟩
    | none =>
      let only := if rule.stores.isEmpty then none else some rule.stores
      if rule.scope = "platform" then .ok ⟨true, t.issuer, [], only, rule.capabilities, none⟩
      else
        let stores := ((newIssuerSet g.configs).stores.lookup t.issuer).getD []
        .ok ⟨false, t.issuer, stores, only, rule.capabilities, none⟩

/-- The first satisfied rule decides; the others explain. -/
def firstRule (g : Gate) (t : Token) (needs : Needs) :
    List AdminBinding → Except (List String) AdminScope
  | [] => .error []
  | rule :: rules =>
    match ruleScope g t needs rule with
    | .ok scope => .ok scope
    | .error reason =>
      match firstRule g t needs rules with
      | .ok scope => .ok scope
      | .error reasons => .error (reason :: reasons)

/-- `adminGate` for a verified token. -/
def adminGate (g : Gate) (t : Token) (needs : Needs) : Except String AdminScope :=
  let byRules : Except (List String) AdminScope :=
    match (newIssuerSet g.configs).admin.lookup t.issuer with
    | some rules => firstRule g t needs rules
    | none => .error ["issuer " ++ t.issuer ++
        " has no admin binding (JWT_ISSUERS: admin.scopes / claims / clients)"]
  match byRules with
  | .ok scope => .ok scope
  | .error reasons =>
    if g.adminRole = "" then .error ("; ".intercalate reasons)
    else if t.roles.contains g.adminRole then .ok ⟨true, t.issuer, [], none, [], none⟩
    else .error ("; ".intercalate
      (reasons ++ ["the token does not hold the admin role (ADMIN_ROLE)"]))

/-- `scopeFor`: the `pgauthz:` scope that a request needs. -/
def Delegated.scopeFor (d : Delegated) (path capability : String) : String :=
  if startsWith path "issuer" then "admin"
  else if capability = "manage" && d.needs.storeRel = "" then "admin"
  else capability

/-- `covers` of a delegated credential. -/
def Delegated.coversScope (d : Delegated) (want : String) (issuersRoute : Bool) : Bool :=
  d.scopes.contains "admin" || d.scopes.contains want || (d.scopes.contains "ci" && !issuersRoute) ||
    (d.scopes.contains "manage" && (want == "test" || want == "read"))

/-- `scopeList`. -/
def Delegated.scopeList (d : Delegated) : String :=
  ", ".intercalate ((d.scopes.dedup.map fun s => "pgauthz:" ++ s).insertionSort (· ≤ ·))

/-- `requireAdmin`: the scope of a caller who may manage, or why not. -/
def requireAdmin (g : Gate) (t : Token) (r : AdminRequest) : Except String AdminScope :=
  match adminGate g t r.needs with
  | .error e => .error ("management refused: " ++ e)
  | .ok scope =>
    let need := neededCapability r.method r.path
    if !scope.can need then
      .error ("management refused: this credential may only " ++ ", ".intercalate scope.caps ++
        " (its admin rule's capabilities); this call needs " ++ need)
    else match scope.decide with
      | none => .ok scope
      | some d =>
        let want := d.scopeFor r.path need
        if d.coversScope want (startsWith r.path "issuer") then .ok scope
        else .error ("management refused: the token's pgauthz scopes (" ++ d.scopeList ++
          ") do not cover this call; it needs pgauthz:" ++ want ++
          if want = "admin" then "" else " (or pgauthz:admin)")

/-! ## The needs of a request -/

theorem startsWith_append (s t : String) : startsWith (s ++ t) s = true := by
  simp [startsWith]

theorem plainName_no_slash {s : String} (h : plainName s = true) : ∀ c ∈ s.toList, c ≠ '/' := by
  intro c hc hslash
  subst hslash
  have hmeta : ('/'.isAlphanum || '/' == '_') = false := by decide
  unfold plainName at h
  split at h
  · cases h
  · rename_i a as hl
    rw [hl] at hc
    simp only [Bool.and_eq_true, List.all_eq_true] at h
    rcases List.mem_cons.mp hc with rfl | hc
    · exact absurd h.1.1 (by decide)
    · exact absurd (hmeta.symm.trans (h.1.2 _ hc)) (by decide)

/-- **The needs on a store.** What follows a plain name in the path decides the relation that the
request needs on this store. -/
theorem delegatedNeeds_store (m : Method) {s rest : String} (hs : plainName s = true)
    (hrest : rest.toList.head?.all (· = '/')) :
    delegatedNeeds m ("stores/" ++ s ++ rest) =
      ⟨storeRelation m rest, "can_create_store", "platform", "default"⟩ := by
  have hp : ("stores/" ++ s ++ rest).toList = "stores/".toList ++ (s.toList ++ rest.toList) := by
    simp
  have hdrop : (s.toList ++ rest.toList).dropWhile (· ≠ '/') = rest.toList := by
    rw [List.dropWhile_append_of_pos fun c hc => by simpa using plainName_no_slash hs c hc]
    cases hl : rest.toList with
    | nil => rfl
    | cons c cs =>
      have hc : c = '/' := by simpa [hl] using hrest
      simp [hc]
  have hissuer : startsWith ("stores/" ++ s ++ rest) "issuer" = false := by
    unfold startsWith
    rw [hp]
    rfl
  have hmodels : startsWith ("stores/" ++ s ++ rest) "models" = false := by
    unfold startsWith
    rw [hp]
    rfl
  have htest : ("stores/" ++ s ++ rest) ≠ "models/test" := by
    intro heq
    rw [heq] at hmodels
    exact absurd hmodels (by decide)
  have hstores : ("stores/" ++ s ++ rest) ≠ "stores" := by
    intro heq
    have hlen := congrArg String.length heq
    simp only [String.length_append] at hlen
    have : "stores/".length = 7 := rfl
    have : "stores".length = 6 := rfl
    omega
  have hstore : startsWith ("stores/" ++ s ++ rest) "stores/" = true := by
    rw [String.append_assoc]
    exact startsWith_append _ _
  unfold delegatedNeeds
  rw [if_neg (by simp [hissuer]), if_neg htest, if_neg (by simp [hmodels]), if_neg hstores,
    if_pos hstore]
  have htail : ("stores/" ++ s ++ rest).toList.drop "stores/".length = s.toList ++ rest.toList := by
    rw [hp]
    rfl
  simp only [htail, hdrop, String.ofList_toList]

/-! ## Delegated scopes -/

theorem delegate_ok {g : Gate} {t : Token} {a : AdminDecision} {needs : Needs} {d : Delegated}
    (h : delegate g t a needs = .ok d) :
    d.needs = needs ∧ d.check = g.checkWithContextualTuples d.store d.subjType d.subjId d.ctxTuples := by
  unfold delegate at h
  dsimp only at h
  split at h
  · cases h
  · split at h
    · cases h
    · obtain rfl := Except.ok.inj h
      exact ⟨rfl, rfl⟩

theorem ruleScope_delegated {g : Gate} {t : Token} {needs : Needs} {rule : AdminBinding}
    {scope : AdminScope} {d : Delegated} (h : ruleScope g t needs rule = .ok scope)
    (hd : scope.decide = some d) : scope.issuer = t.issuer ∧ d.needs = needs := by
  unfold ruleScope at h
  split at h
  · cases h
  · split at h
    · rename_i a _
      cases hdel : delegate g t a needs with
      | error e =>
        rw [hdel] at h
        cases h
      | ok d' =>
        rw [hdel] at h
        obtain rfl := Except.ok.inj h
        obtain rfl := Option.some.inj hd
        exact ⟨rfl, (delegate_ok hdel).1⟩
    · -- a rule that does not delegate
      dsimp only at h
      split at h
      all_goals
        obtain rfl := Except.ok.inj h
        cases hd

theorem firstRule_delegated {g : Gate} {t : Token} {needs : Needs} {rules : List AdminBinding}
    {scope : AdminScope} {d : Delegated} (h : firstRule g t needs rules = .ok scope)
    (hd : scope.decide = some d) : scope.issuer = t.issuer ∧ d.needs = needs := by
  induction rules with
  | nil => cases h
  | cons rule rules ih =>
    unfold firstRule at h
    split at h
    · rename_i hrule
      obtain rfl := Except.ok.inj h
      exact ruleScope_delegated hrule hd
    · split at h
      · rename_i hrest
        obtain rfl := Except.ok.inj h
        exact ih hrest
      · cases h

/-- **Delegated scopes.** A scope that a delegated rule gave is for the token's issuer, and it asks
for what the request needs. -/
theorem adminGate_delegated {g : Gate} {t : Token} {needs : Needs} {scope : AdminScope}
    {d : Delegated} (h : adminGate g t needs = .ok scope) (hd : scope.decide = some d) :
    scope.issuer = t.issuer ∧ d.needs = needs := by
  unfold adminGate at h
  dsimp only at h
  split at h
  · rename_i hrules
    obtain rfl := Except.ok.inj h
    split at hrules
    · exact firstRule_delegated hrules hd
    · cases hrules
  · -- the admin role never delegates
    split at h
    · cases h
    · split at h
      · obtain rfl := Except.ok.inj h
        cases hd
      · cases h

end PgAuthz.Daemon
