import PgAuthz.Console.Roles
import PgAuthz.Daemon.Delegation

/-!
# The console and the delegated admin API

A person manages stores in the console, or with their own token over the admin API of the daemon,
whose delegated rule asks the console's store. Both doors derive the same subject. The console reads
the roles of the token as teams in a normal form, and the daemon as they are, together with the
scopes. Then each door maps an action to the relations it asks for.

For a token whose teams are the same on both doors, the doors agree on reading a store, on its model
and rollout, on its recorders and on retiring it. They differ on seven actions: a store that nobody
has claimed is listed and deleted in the console alone and updated over the API alone, a store is
created over the API by whoever manages the name already, publishing and the export of a data subject
ask for different relations, and the API lets a token manage the bindings of its own issuer.

## Main definitions

* `Claim`, `teamID`: a claim of the token, and the team that the console makes of a value
* `Doors`: the console and the daemon over one console store, and a token
* `Aligned`: the teams and the platform are the same on both doors
* `Action`, `consoleAdmits`, `apiAdmits`: the actions of both, and who may do them
* `SameRight`: where the doors agree

## Main results

* `consoleCan_eq_apiCan`: on both doors a person has the same relations
* `doors_agree_iff`: an action is admitted on both doors or on neither iff `SameRight`
-/

namespace PgAuthz.Console

open PgAuthz.Daemon (AdminBinding AdminDecision AdminRequest AdminScope Binding Delegated Instance Needs
  Question Token adminGate adminStores fields newIssuerSet plainName requirePlatform requireStoreScope
  satisfiedBy scopeManagesGroup splitChar startsWith trimSpace trimStart)

/-! ## Questions -/

/-- The question for a relation on an object. -/
def ask (relation : Rel) (object : Obj) : Question := ⟨relation.name, object.typ.name, object.id⟩

/-! ## Teams -/

/-- The value of the realm-roles claim. -/
inductive Claim
  | absent
  | text (value : String)
  | list (values : List String)
  | object (keys : List String)
deriving DecidableEq, Repr

/-- `claimValues`: the console reads a text, a list or the keys of an object. -/
def claimValues : Claim → List String
  | .absent => []
  | .text value => [value]
  | .list values => values
  | .object keys => keys

/-- `extractRoles`: the daemon reads a list. -/
def extractRoles : Claim → List String
  | .list values => values.dedup
  | .absent | .text _ | .object _ => []

/-- The characters that a team id keeps. -/
def isSafeId (c : Char) : Bool := c.isAlphanum || c == '_' || c == '.' || c == '@' || c == '-'

/-- Every run of other characters becomes one underscore; the flag is set within a run. -/
def replaceUnsafe : Bool → List Char → List Char
  | _, [] => []
  | inRun, c :: cs =>
    if isSafeId c then c :: replaceUnsafe false cs
    else if inRun then replaceUnsafe true cs
    else '_' :: replaceUnsafe true cs

/-- `strings.Trim` of slashes. -/
def trimSlashes (cs : List Char) : List Char :=
  ((cs.dropWhile (· = '/')).reverse.dropWhile (· = '/')).reverse

/-- `teamID`. -/
def teamID (kind value : String) : String :=
  kind ++ "_" ++ String.ofList (replaceUnsafe false (trimSlashes value.toList))

/-! ## The doors -/

/-- `subjectID`: the first of the claims that the token has. -/
def subjectID (claims : List String) (t : Token) : Option String :=
  (claims.map fun c => trimSpace (t.stringAt c)).find? (· ≠ "")

/-- The claims of the subject that a delegated rule names. -/
def ruleClaims (inst : Instance) (a : AdminDecision) : List String :=
  let claim := if a.subjectClaim = "" then inst.subjectIdClaim else a.subjectClaim
  let claim := if claim = "" then "preferred_username" else claim
  (splitChar claim ',').map trimSpace

/-- The memberships of a subject as the daemon sends them. -/
def sentMemberships (typ : Typ) (id : String) (teams : List String) : List Daemon.Membership :=
  teams.map fun team => ⟨typ.name, id, "member", "team", team⟩

/-- The memberships of a subject as tuples. -/
def memberTuples (user : User) (teams : List String) : List RoleTuple :=
  teams.map fun team => ⟨user, .member, ⟨.team, team⟩⟩

/-- A console and a daemon over one console store, and a token with the scope `pgauthz:admin`. The
daemon decides about the tokens of the issuer with one delegated rule, which the token satisfies. Both
read the same claims. -/
structure Doors where
  cfg : Config
  registryId : String
  viaApi : Bool
  roles : Roles
  inst : Instance
  token : Token
  claim : Claim
  typ : Typ
  id : String
  rule : AdminBinding
  decision : AdminDecision
  rules : (newIssuerSet inst.configs).admin.lookup token.issuer = some [rule]
  satisfied : satisfiedBy token rule = none
  decides : rule.decide = some decision
  trusted : (inst.configs.any fun ic => ic.issuer = token.issuer) = true
  scope : "pgauthz:admin" ∈ fields token.scope
  subject : subjectID (ruleClaims inst decision) token = some id
  subjectType : (if decision.subjectType = "" then "user" else decision.subjectType) = typ.name
  tokenRoles : token.roles = extractRoles claim
  stores : inst.stores = roles.stores.map Prod.fst
  asks : ∀ teams relation object,
    inst.checkWithContextualTuples decision.store typ.name id (sentMemberships typ id teams)
      (ask relation object) =
        .ok (check (roles.tuples.rows ++ memberTuples ⟨typ, id, none⟩ teams) ⟨typ, id, none⟩
          cfg.maxDepth relation object)

namespace Doors

variable (D : Doors)

/-- The person in the console. -/
def person : Principal where
  typ := D.typ
  id := D.id
  teams := ((claimValues D.claim).map (teamID "role")).dedup.insertionSort (· ≤ ·)
  storeRole := none
  pathStore := ""
  noTesting := !(fields D.token.scope).contains "pgauthz:test"

/-- The teams of the subject over the API. -/
def apiTeams : List String :=
  D.token.roles.map ("role_" ++ ·) ++ (fields D.token.scope).map ("scope_" ++ ·)

/-- The relations of the person in the console. -/
def consoleCan (relation : Rel) (object : Obj) : Bool :=
  canQ D.cfg D.roles.tuples.rows D.person relation object

/-- The relations of the subject over the API. -/
def apiCan (relation : Rel) (object : Obj) : Bool :=
  check (D.roles.tuples.rows ++ memberTuples D.person.user D.apiTeams) D.person.user D.cfg.maxDepth
    relation object

/-- The teams and the objects of the platform are the same on both doors: the roles of the token are
a list of team ids in their normal form, nothing is granted to a scope of the token, and the console
has the platform and the registry that the daemon asks about. -/
structure Aligned : Prop where
  platform : D.cfg.platformId = "default"
  registry : D.registryId = "default"
  claim : ∀ v ∈ claimValues D.claim, v ∈ extractRoles D.claim ∧ teamID "role" v = "role_" ++ v
  scopes : ∀ t ∈ D.roles.tuples.rows, ∀ s ∈ fields D.token.scope,
    t.user.obj ≠ ⟨.team, "scope_" ++ s⟩

theorem tuplesFor_person (object : Obj) :
    D.person.tuplesFor object = memberTuples D.person.user D.person.teams :=
  rfl

theorem mem_memberTuples {user : User} {teams : List String} {t : RoleTuple} :
    t ∈ memberTuples user teams ↔ ∃ team ∈ teams, t = ⟨user, .member, ⟨.team, team⟩⟩ := by
  simp [memberTuples, eq_comm]

theorem mem_claimValues {c : Claim} {v : String} (h : v ∈ extractRoles c) : v ∈ claimValues c := by
  cases c with
  | list values => exact List.mem_dedup.mp h
  | _ => cases h

/-- **The same relations on both doors**, on every object but a team. -/
theorem consoleCan_eq_apiCan {D : Doors} (h : D.Aligned) {relation : Rel} {object : Obj}
    (hteam : object.typ ≠ .team) (htest : relation.isTesting = false) :
    D.consoleCan relation object = D.apiCan relation object := by
  unfold consoleCan canQ
  rw [htest, Bool.and_false, if_neg (by simp)]
  -- the teams of the scopes cannot be reached from any other object
  refine check_congr (S := {o | ∀ s ∈ fields D.token.scope, o ≠ ⟨.team, "scope_" ++ s⟩}) ?_ ?_ _ _ ?_
  · intro t ht _ hlink s hs
    rcases List.mem_append.mp ht with ht | ht
    · exact h.scopes t ht s hs
    · obtain ⟨team, -, rfl⟩ := List.mem_map.mp ht
      simp [Rel.isLink, Principal.user] at hlink
  · intro t ho
    have hteams : ∀ team, team ∈ D.person.teams ↔ team ∈ D.token.roles.map ("role_" ++ ·) := by
      intro team
      simp only [person, List.mem_insertionSort, List.mem_dedup, List.mem_map, D.tokenRoles]
      constructor
      · rintro ⟨v, hv, rfl⟩
        exact ⟨v, (h.claim v hv).1, (h.claim v hv).2.symm⟩
      · rintro ⟨v, hv, rfl⟩
        exact ⟨v, mem_claimValues hv, (h.claim v (mem_claimValues hv)).2⟩
    rw [tuplesFor_person, List.mem_append, List.mem_append, mem_memberTuples, mem_memberTuples]
    refine or_congr Iff.rfl ⟨?_, ?_⟩
    · rintro ⟨team, hmem, rfl⟩
      exact ⟨team, List.mem_append_left _ ((hteams team).mp hmem), rfl⟩
    · rintro ⟨team, hmem, rfl⟩
      rcases List.mem_append.mp hmem with hmem | hmem
      · exact ⟨team, (hteams team).mpr hmem, rfl⟩
      · obtain ⟨s, hs, rfl⟩ := List.mem_map.mp hmem
        exact absurd rfl (ho s hs)
  · intro s _ heq
    exact hteam (by rw [heq])

/-! ## The gate of the daemon -/

/-- The token as a subject of the console's store. -/
def delegated (needs : Needs) : Delegated where
  store := D.decision.store
  subjType := D.typ.name
  subjId := D.id
  ctxTuples := sentMemberships D.typ D.id D.apiTeams
  scopes := ((fields D.token.scope).filter fun s => startsWith s "pgauthz:").map fun s =>
    trimStart s "pgauthz:"
  check := D.inst.checkWithContextualTuples D.decision.store D.typ.name D.id
    (sentMemberships D.typ D.id D.apiTeams)
  needs := needs

/-- The scope of the token. -/
def adminScope (needs : Needs) : AdminScope :=
  ⟨false, D.token.issuer, [], none, [], some (D.delegated needs)⟩

theorem scopes_admin (needs : Needs) : "admin" ∈ (D.delegated needs).scopes := by
  refine List.mem_map.mpr ⟨"pgauthz:admin", List.mem_filter.mpr ⟨D.scope, ?_⟩, ?_⟩
  · decide +kernel
  · decide +kernel

theorem adminGate_eq (needs : Needs) :
    adminGate D.inst.toGate D.token needs = .ok (D.adminScope needs) := by
  have hsubject : ((splitChar (if (if D.decision.subjectClaim = "" then D.inst.subjectIdClaim
      else D.decision.subjectClaim) = "" then "preferred_username" else
        if D.decision.subjectClaim = "" then D.inst.subjectIdClaim else D.decision.subjectClaim)
      ',').map fun c => trimSpace (D.token.stringAt (trimSpace c))).find? (· ≠ "") = some D.id := by
    have h := D.subject
    rwa [subjectID, ruleClaims, List.map_map] at h
  have hscopes : (D.delegated needs).scopes ≠ [] := List.ne_nil_of_mem (D.scopes_admin needs)
  have hdelegate : Daemon.delegate D.inst.toGate D.token D.decision needs = .ok (D.delegated needs) := by
    unfold Daemon.delegate
    simp only [hsubject, D.subjectType]
    rw [if_neg]
    · simp only [delegated, sentMemberships, apiTeams, List.map_append, List.map_map]
      rfl
    · simpa [delegated, List.isEmpty_iff] using hscopes
  unfold adminGate
  simp only [D.rules, Daemon.firstRule, Daemon.ruleScope, D.satisfied, D.decides, hdelegate]
  rfl

theorem admin_eq (r : AdminRequest) : D.inst.admin D.token r = .ok (D.adminScope r.needs) := by
  rcases Daemon.admin_delegated (D.adminGate_eq r.needs) rfl with ⟨-, h⟩ | ⟨h, -⟩
  · exact h
  · -- the scope pgauthz:admin covers every request
    have hpass : (D.delegated r.needs).passes r = true := by
      simp [Delegated.passes, Delegated.coversScope, D.scopes_admin]
    rw [h] at hpass
    cases hpass

theorem allowed_ask (needs : Needs) (relation : Rel) (object : Obj) :
    (D.delegated needs).allowed (ask relation object) = D.apiCan relation object := by
  unfold Delegated.allowed apiCan
  simp only [delegated, D.asks]
  rfl

/-- The gate let the request through. -/
def passed {α : Type} : Except Daemon.Reply α → Bool
  | .ok _ => true
  | .error _ => false

/-- **Requests on a store**: what follows the name in the path decides the relation, and creating a
store is the platform's. -/
theorem passed_requireStoreScope {r : AdminRequest} {s rest : String} {relation : Rel}
    (hs : plainName s = true) (hpath : r.path = "stores/" ++ s ++ rest)
    (hrest : rest.toList.head?.all (· = '/'))
    (hrel : Daemon.storeRelation r.method rest = relation.name) :
    passed (requireStoreScope D.inst D.token r s) =
      (D.apiCan relation ⟨.store, s⟩ ||
        (r.method = .put && rest = "" && D.apiCan .canCreateStore ⟨.platform, "default"⟩)) := by
  have hneeds : r.needs = ⟨relation.name, "can_create_store", "platform", "default"⟩ := by
    rw [AdminRequest.needs, hpath, Daemon.delegatedNeeds_store r.method hs hrest, hrel]
  have hcovers : (D.adminScope r.needs).coversStore D.inst.lib s = D.apiCan relation ⟨.store, s⟩ := by
    have hne : relation.name != "" := by cases relation <;> decide
    rw [Daemon.coversStore_delegated rfl]
    show ((r.needs).storeRel != "" && _) = _
    rw [hneeds, hne, Bool.true_and]
    exact D.allowed_ask _ relation ⟨.store, s⟩
  have hcreate : Daemon.creatingStore (D.adminScope r.needs) r s =
      (r.method = .put && rest = "" && D.apiCan .canCreateStore ⟨.platform, "default"⟩ : Bool) := by
    have hplat : (D.adminScope r.needs).platformWide =
        D.apiCan .canCreateStore ⟨.platform, "default"⟩ := by
      rw [Daemon.platformWide_delegated rfl (by simp [delegated, hneeds])]
      show (D.delegated r.needs).allowed r.needs.plat = _
      rw [hneeds]
      exact D.allowed_ask _ .canCreateStore ⟨.platform, "default"⟩
    have hself : (r.path == "stores/" ++ s) = (rest = "" : Bool) := by
      rw [hpath, Bool.eq_iff_iff, beq_iff_eq, decide_eq_true_eq]
      constructor
      · intro h
        have := congrArg String.toList h
        simpa using this
      · rintro rfl
        rw [String.append_empty]
    unfold Daemon.creatingStore
    rw [hplat, hself]
    simp only [adminScope, Option.any_some, List.contains_iff_mem.mpr (D.scopes_admin _),
      Bool.true_or, Bool.true_and]
  unfold requireStoreScope
  simp only [D.admin_eq, hs, hcovers, hcreate, Bool.not_true, Bool.false_eq_true, if_false]
  cases D.apiCan relation ⟨.store, s⟩ <;>
    cases (r.method = .put && rest = "" && D.apiCan .canCreateStore ⟨.platform, "default"⟩ : Bool) <;>
      rfl

/-- **Requests of the platform or the registry.** -/
theorem passed_requirePlatform {r : AdminRequest} {relation : Rel} {object : Obj}
    (hneeds : r.needs.plat = ask relation object) :
    passed (requirePlatform D.inst D.token r) = D.apiCan relation object := by
  have hplat : (D.adminScope r.needs).platformWide = D.apiCan relation object := by
    have hne : relation.name ≠ "" := by cases relation <;> decide
    rw [Daemon.platformWide_delegated rfl (by rw [delegated, hneeds]; exact hne)]
    show (D.delegated r.needs).allowed r.needs.plat = _
    rw [hneeds]
    exact D.allowed_ask _ relation object
  unfold requirePlatform
  simp only [D.admin_eq, hplat]
  cases D.apiCan relation object <;> rfl

end Doors

/-! ## Actions -/

/-- A name that a store can have. -/
abbrev StoreName := { s : String // plainName s = true }

/-- What both doors offer. A binding of an issuer is named by the address of the issuer. -/
inductive Action
  | list (s : StoreName)
  | read (s : StoreName)
  | create (s : StoreName) (body : Option Daemon.StoreUpsert)
  | update (s : StoreName) (body : Option Daemon.StoreUpsert)
  | retire (s : StoreName) (body : Option Daemon.StoreUpsert)
  | delete (s : StoreName) (purgeAudit purgeDecisions : Bool)
  | exportModel (s : StoreName)
  | planApply (s : StoreName) (model : Option String) (plan : Bool)
  | publish (s : StoreName) (name : String) (body : Option Daemon.Publish)
  | grantRecorder (s : StoreName) (role : String) (actions : Option (List String))
  | revokeRecorder (s : StoreName) (role : String)
  | exportSubject (s : StoreName) (typ id : String) (limit : Option ℤ)
  | readBinding (b : Binding)
  | writeBinding (b : Binding)
  | deleteBinding (issuer : String)

namespace Doors

variable (D : Doors)

/-- The rows of the bindings. -/
def rows : List Binding := D.inst.bindings.getD []

/-- The person manages the issuers of the platform. -/
def managesIssuers : Bool := D.consoleCan .canManageIssuers D.cfg.platform

/-- The person manages the issuers of a group. -/
def managesGroup (g : String) : Bool := g ≠ "" && D.consoleCan .canManageIssuers ⟨.group, g⟩

/-- `handleIssuerSave`: an existing row is its owner's, moving it the platform's, and a new row of a
group comes with its keys. -/
def saveGate (b : Binding) : Bool :=
  D.managesIssuers || match Daemon.bindingRow D.rows b.issuer with
    | some cur => b.storeGroup = cur.storeGroup && D.managesGroup cur.storeGroup
    | none => b.jwksUrl ≠ "" && D.managesGroup b.storeGroup

/-- `issuerManager`: the person manages the issuers of the platform or of a group. -/
def issuerManager : Bool :=
  D.managesIssuers || D.roles.tuples.rows.any fun t =>
    t.object.typ = .group && D.consoleCan .canManageIssuers t.object

/-- The refusals of a write of a binding that are for want of a right. -/
def bindingPassed (scope : AdminScope) (b : Binding) : Bool :=
  let cur := Daemon.bindingRow D.rows b.issuer
  (Daemon.ownershipRefusal scope cur b).isNone &&
    match Daemon.trustedIssuer D.inst scope cur.isNone b D.inst.configs with
    | .error e => e.status ≠ 403
    | .ok true => true
    | .ok false => (Daemon.untrustedRefusal D.inst scope b).all fun e => e.status ≠ 403

/-- Who may do an action over the API. -/
def apiAdmits : Action → Bool
  | .list s => (adminStores D.inst D.token).records.contains (.store s)
  | .read s => passed (requireStoreScope D.inst D.token (.store s) s)
  | .create s body => passed (requireStoreScope D.inst D.token (.upsertStore s body) s)
  | .update s body => passed (requireStoreScope D.inst D.token (.upsertStore s body) s)
  | .retire s body => passed (requireStoreScope D.inst D.token (.upsertStore s body) s)
  | .delete s purgeAudit purgeDecisions =>
    passed (requireStoreScope D.inst D.token (.deleteStore s purgeAudit purgeDecisions) s)
  | .exportModel s => passed (requireStoreScope D.inst D.token (.storeModel s) s)
  | .planApply s model plan =>
    passed (requireStoreScope D.inst D.token (.applyModel s model plan) s)
  | .publish _ name body => passed (requirePlatform D.inst D.token (.publishModel name body))
  | .grantRecorder s role actions =>
    passed (requireStoreScope D.inst D.token (.setRecorder s role actions) s)
  | .revokeRecorder s role => passed (requireStoreScope D.inst D.token (.deleteRecorder s role) s)
  | .exportSubject s typ id limit =>
    passed (requireStoreScope D.inst D.token (.subjectExport s typ id limit) s)
  | .readBinding b =>
    match D.inst.admin D.token (.issuerBindings b.issuer) with
    | .error _ => false
    | .ok scope => (Daemon.visibleBindings scope [b]).contains b
  | .writeBinding b =>
    match D.inst.admin D.token (.setIssuerBinding (some b)) with
    | .error _ => false
    | .ok scope => D.bindingPassed scope b
  | .deleteBinding issuer =>
    match D.inst.admin D.token (.deleteIssuerBinding issuer) with
    | .error _ => false
    | .ok scope => scope.covers issuer || ((Daemon.bindingRow D.rows issuer).any fun row =>
        row.storeGroup != "" && scopeManagesGroup scope row.storeGroup)

/-- Who may do an action in the console. The bindings pass both gates if the console manages them over
the API. A deletion of a binding asks for the platform in its transaction, whoever asked for it. -/
def consoleAdmits : Action → Bool
  | .list s => D.roles.hasStore s && (D.consoleCan .canView ⟨.store, s⟩ ||
      (D.consoleCan .canViewAllStores D.cfg.platform && !claimed D.cfg D.roles s))
  | .read s => D.consoleCan .canView ⟨.store, s⟩
  | .create .. => D.consoleCan .canCreateStore D.cfg.platform
  | .update s _ => D.consoleCan .canManageAccess ⟨.store, s⟩
  | .retire s _ => lifecycleGate D.cfg D.roles D.person s
  | .delete s .. => lifecycleGate D.cfg D.roles D.person s
  | .exportModel s => D.consoleCan .canView ⟨.store, s⟩
  | .planApply s .. => D.consoleCan .canRollout ⟨.store, s⟩
  | .publish s .. => D.consoleCan .canPublish ⟨.store, s⟩ &&
      D.consoleCan .canPublish ⟨.registry, D.registryId⟩
  | .grantRecorder s .. => D.consoleCan .canManageAccess ⟨.store, s⟩
  | .revokeRecorder s _ => D.consoleCan .canManageAccess ⟨.store, s⟩
  | .exportSubject s .. => D.consoleCan .canViewAudit ⟨.store, s⟩
  | .readBinding b =>
    if D.viaApi then D.issuerManager && D.apiAdmits (.readBinding b)
    else D.managesIssuers || D.managesGroup b.storeGroup
  | .writeBinding b => D.saveGate b && (!D.viaApi || D.apiAdmits (.writeBinding b))
  | .deleteBinding issuer =>
    D.managesIssuers && (!D.viaApi || D.apiAdmits (.deleteBinding issuer))

/-- Where the doors agree. -/
def SameRight : Action → Prop
  | .list s => D.roles.hasStore s → ¬claimed D.cfg D.roles s →
      D.consoleCan .canViewAllStores D.cfg.platform → D.consoleCan .canView ⟨.store, s⟩
  | .create s _ => D.consoleCan .canManageAccess ⟨.store, s⟩ →
      D.consoleCan .canCreateStore D.cfg.platform
  | .update s _ => D.consoleCan .canCreateStore D.cfg.platform →
      D.consoleCan .canManageAccess ⟨.store, s⟩
  | .delete s .. => ¬claimed D.cfg D.roles s → D.consoleCan .canCreateStore D.cfg.platform →
      D.consoleCan .canManageAccess ⟨.store, s⟩
  | .publish s .. => D.consoleCan .canPublish ⟨.registry, D.registryId⟩ →
      D.consoleCan .canPublish ⟨.store, s⟩
  | .exportSubject s .. => D.consoleCan .canViewAudit ⟨.store, s⟩ = D.consoleCan .canExport ⟨.store, s⟩
  | .readBinding b =>
    if D.viaApi then b.issuer = D.token.issuer → D.issuerManager
    else D.managesIssuers ∨ if b.issuer = D.token.issuer then D.managesGroup b.storeGroup
      else D.managesGroup b.storeGroup → plainName b.storeGroup
  | .writeBinding b => D.managesIssuers ∨
      match Daemon.bindingRow D.rows b.issuer with
      | some cur => b.storeGroup = cur.storeGroup → if b.issuer = D.token.issuer then
          D.managesGroup cur.storeGroup
          else D.managesGroup cur.storeGroup → ¬D.viaApi → plainName cur.storeGroup
      | none => if b.issuer = D.token.issuer then b.jwksUrl ≠ "" ∧ D.managesGroup b.storeGroup
          else D.managesGroup b.storeGroup → if b.jwksUrl = "" then
            ¬plainName b.storeGroup ∨ D.inst.fromEnv b.issuer
            else ¬D.viaApi → plainName b.storeGroup ∧ ¬D.inst.fromEnv b.issuer
  | .deleteBinding issuer => D.managesIssuers ∨ (issuer ≠ D.token.issuer ∧
      ∀ row ∈ Daemon.bindingRow D.rows issuer,
        D.managesGroup row.storeGroup → ¬plainName row.storeGroup)
  | .read _ | .retire .. | .exportModel _ | .planApply .. | .grantRecorder .. | .revokeRecorder .. =>
    True

/-! ## What the API asks for -/

variable {D}

/-- **The relations of the API are those of the console.** -/
theorem Aligned.can (h : D.Aligned) {relation : Rel} {typ : Typ} (id : String)
    (hteam : typ ≠ .team) (htest : relation.isTesting = false) :
    D.apiCan relation ⟨typ, id⟩ = D.consoleCan relation ⟨typ, id⟩ :=
  (consoleCan_eq_apiCan h hteam htest).symm

/-- A route of a store that creates none asks for one relation on it. -/
theorem passed_storeRoute (h : D.Aligned) {r : AdminRequest} (s : StoreName) (rest : String)
    (relation : Rel) (hpath : r.path = "stores/" ++ s ++ rest)
    (hrest : rest.toList.head?.all (· = '/'))
    (hrel : Daemon.storeRelation r.method rest = relation.name)
    (hput : r.method = .put → rest ≠ "") (htest : relation.isTesting = false) :
    passed (requireStoreScope D.inst D.token r s) = D.consoleCan relation ⟨.store, s⟩ := by
  have hcreate : (r.method = .put && rest = "" &&
      D.apiCan .canCreateStore ⟨.platform, "default"⟩ : Bool) = false := by
    by_cases hm : r.method = .put
    · simp [hput hm]
    · simp [hm]
  rw [D.passed_requireStoreScope s.2 hpath hrest hrel, hcreate, Bool.or_false,
    h.can _ (by decide) htest]

/-- Creating, updating and retiring a store are one request of the API. -/
theorem passed_upsertStore (h : D.Aligned) (s : StoreName) (body : Option Daemon.StoreUpsert) :
    passed (requireStoreScope D.inst D.token (.upsertStore s body) s) =
      (D.consoleCan .canManageAccess ⟨.store, s⟩ || D.consoleCan .canCreateStore D.cfg.platform) := by
  have hplat : D.cfg.platform = ⟨.platform, "default"⟩ := by
    rw [Config.platform, h.platform]
  have hpath : AdminRequest.path (.upsertStore s body) = "stores/" ++ s ++ "" := AdminRequest.path_self rfl
  have hrel : Daemon.storeRelation (AdminRequest.method (.upsertStore s body)) "" =
      Rel.name .canManageAccess := rfl
  rw [D.passed_requireStoreScope s.2 hpath rfl hrel, hplat, h.can _ (by decide) rfl,
    h.can _ (by decide) rfl]
  simp [AdminRequest.method]

/-- The routes of the recorders of a store. -/
theorem passed_recorder (h : D.Aligned) {r : AdminRequest} (s : StoreName) (role : String)
    (hpath : r.path = "stores/" ++ s ++ "/recorders/" ++ role) (hm : r.method ≠ .get) :
    passed (requireStoreScope D.inst D.token r s) = D.consoleCan .canManageAccess ⟨.store, s⟩ := by
  have hl : ("/recorders/" ++ role).toList = '/' :: 'r' :: ("ecorders/".toList ++ role.toList) := by
    rw [String.toList_append]
    rfl
  apply passed_storeRoute h s ("/recorders/" ++ role)
  · rw [hpath, String.append_assoc]
  · rw [hl]
    rfl
  · rw [Daemon.storeRelation_below r.method hl (by decide) (by decide), if_neg hm]
    rfl
  · intro _ hnil
    rw [hnil] at hl
    cases hl
  · rfl

/-- The export of a data subject asks for `can_export`. -/
theorem passed_subjectExport (h : D.Aligned) (s : StoreName) (typ id : String) (limit : Option ℤ) :
    passed (requireStoreScope D.inst D.token (.subjectExport s typ id limit) s) =
      D.consoleCan .canExport ⟨.store, s⟩ := by
  have hl : ("/subjects/" ++ typ ++ "/" ++ id).toList =
      "/subjects".toList ++ ('/' :: (typ ++ "/" ++ id).toList) := by
    simp only [String.toList_append]
    rfl
  apply passed_storeRoute h s ("/subjects/" ++ typ ++ "/" ++ id)
  · exact (Daemon.subjectExport_path s typ id).trans (by simp only [String.append_assoc])
  · rw [hl]
    rfl
  · unfold Daemon.storeRelation startsWith
    rw [hl, if_pos (by simp)]
    rfl
  · nofun
  · rfl

/-- Publishing asks for the registry alone. -/
theorem passed_publishModel (h : D.Aligned) (name : String) (body : Option Daemon.Publish) :
    passed (requirePlatform D.inst D.token (.publishModel name body)) =
      D.consoleCan .canPublish ⟨.registry, D.registryId⟩ := by
  have hpath : AdminRequest.path (.publishModel name body) = "models" ++ ("/" ++ name ++ "/versions") := by
    exact Daemon.models_path name "/versions"
  have htest : AdminRequest.path (.publishModel name body) ≠ "models/test" :=
    Daemon.models_path_ne name (by decide)
  have hissuer : startsWith (AdminRequest.path (.publishModel name body)) "issuer" = false := by
    unfold startsWith
    rw [hpath, String.toList_append]
    rfl
  have hmodels : startsWith (AdminRequest.path (.publishModel name body)) "models" = true := by
    rw [hpath]
    exact Daemon.startsWith_append _ _
  have hneeds : (AdminRequest.needs (.publishModel name body)).plat =
      ask .canPublish ⟨.registry, "default"⟩ := by
    unfold AdminRequest.needs Daemon.delegatedNeeds
    rw [if_neg (by simp [hissuer]), if_neg htest, if_pos hmodels]
    rfl
  rw [D.passed_requirePlatform hneeds, h.registry, h.can _ (by decide) rfl]

/-- The list of the API has the stores that the person may see. -/
theorem mem_adminStores (h : D.Aligned) (s : String) :
    (adminStores D.inst D.token).records.contains (.store s) =
      (D.roles.hasStore s && D.consoleCan .canView ⟨.store, s⟩) := by
  have hcovers : (D.adminScope (AdminRequest.needs .stores)).coversStore D.inst.lib s =
      D.consoleCan .canView ⟨.store, s⟩ := by
    rw [Daemon.coversStore_delegated rfl, ← h.can _ (by decide) rfl]
    exact D.allowed_ask _ .canView ⟨.store, s⟩
  unfold adminStores
  simp only [D.admin_eq, Daemon.Reply.records200]
  rw [Bool.eq_iff_iff, List.contains_iff_mem, Bool.and_eq_true, ← hcovers, List.mem_map]
  have hmem : s ∈ D.inst.stores ↔ D.roles.hasStore s = true := by
    simp [D.stores, Roles.hasStore]
  constructor
  · rintro ⟨s', hs', heq⟩
    obtain rfl := Daemon.Record.store.inj heq
    obtain ⟨hs', hcov⟩ := List.mem_filter.mp hs'
    exact ⟨hmem.mp hs', hcov⟩
  · rintro ⟨hs, hcov⟩
    exact ⟨s, List.mem_filter.mpr ⟨hmem.mpr hs, hcov⟩, rfl⟩

/-! ## The bindings of the issuers -/

/-- A request on the issuers. -/
theorem OnIssuers.scope {r : AdminRequest} (hr : Daemon.OnIssuers r) (h : D.Aligned) :
    (D.adminScope r.needs).platformWide = D.managesIssuers ∧
      (∀ issuer, (D.adminScope r.needs).covers issuer =
        (D.managesIssuers || issuer = D.token.issuer)) ∧
      ∀ g, (g != "" && scopeManagesGroup (D.adminScope r.needs) g) =
        (g ≠ "" && plainName g && (D.managesGroup g || D.managesIssuers)) := by
  have hplat : (D.delegated r.needs).allowed Daemon.askedIssuers = D.managesIssuers := by
    rw [managesIssuers, Config.platform, h.platform, ← h.can _ (by decide) rfl]
    exact D.allowed_ask _ .canManageIssuers ⟨.platform, "default"⟩
  refine ⟨?_, ?_, ?_⟩
  · rw [hr.platformWide (D.adminGate_eq _) rfl, hplat]
  · intro issuer
    rw [hr.covers (D.adminGate_eq _) rfl, hplat]
    rfl
  · intro g
    have hgroup : (D.delegated r.needs).allowed ⟨"can_manage_issuers", "group", g⟩ =
        D.consoleCan .canManageIssuers ⟨.group, g⟩ := by
      rw [← h.can _ (by decide) rfl]
      exact D.allowed_ask _ .canManageIssuers ⟨.group, g⟩
    unfold scopeManagesGroup managesGroup
    simp only [adminScope, hgroup]
    rw [show (D.delegated r.needs).allowed ⟨"can_manage_issuers", "platform", "default"⟩ =
      D.managesIssuers from hplat]
    by_cases hg : g = ""
    · simp [hg]
    · simp [hg]

/-- Who reads a binding over the API: the platform, its own issuer and the admins of its group. -/
theorem apiAdmits_readBinding (h : D.Aligned) (b : Binding) :
    D.apiAdmits (.readBinding b) = (D.managesIssuers || b.issuer = D.token.issuer ||
      (plainName b.storeGroup && D.managesGroup b.storeGroup)) := by
  have hr : Daemon.OnIssuers (.issuerBindings b.issuer) := .of_path "issuer-bindings" rfl (by decide)
  obtain ⟨-, hcov, hgroup⟩ := OnIssuers.scope hr h
  unfold apiAdmits Daemon.visibleBindings
  simp only [D.admin_eq]
  rw [Bool.eq_iff_iff, List.contains_iff_mem, List.mem_filter, hcov, hgroup]
  by_cases hg : b.storeGroup = ""
  · simp [hg, managesGroup]
  · cases D.managesIssuers <;> simp [hg]

theorem apiAdmits_deleteBinding (h : D.Aligned) (issuer : String) :
    D.apiAdmits (.deleteBinding issuer) = (D.managesIssuers || issuer = D.token.issuer ||
      (Daemon.bindingRow D.rows issuer).any fun row =>
        plainName row.storeGroup && D.managesGroup row.storeGroup) := by
  have hr : Daemon.OnIssuers (.deleteIssuerBinding issuer) := .of_path "issuer-bindings" rfl (by decide)
  obtain ⟨-, hcov, hgroup⟩ := OnIssuers.scope hr h
  unfold apiAdmits
  simp only [D.admin_eq, hcov, hgroup]
  cases D.managesIssuers with
  | true => rfl
  | false =>
    congr 2
    funext row
    by_cases hg : row.storeGroup = ""
    · simp [hg, managesGroup]
    · simp [hg]

theorem ownershipRefusal_isNone (scope : AdminScope) (cur : Option Binding) (b : Binding) :
    (Daemon.ownershipRefusal scope cur b).isNone = match cur with
      | some row => (scope.covers b.issuer ||
          (row.storeGroup != "" && scopeManagesGroup scope row.storeGroup)) &&
            (b.storeGroup = row.storeGroup || scope.platformWide)
      | none => scope.covers b.issuer ||
          (b.storeGroup != "" && scopeManagesGroup scope b.storeGroup) := by
  have hwide : (scope.platformWide || scope.covers b.issuer) = scope.covers b.issuer := by
    rw [AdminScope.covers, ← Bool.or_assoc, Bool.or_self]
  unfold Daemon.ownershipRefusal
  cases cur with
  | some row =>
    simp only [hwide]
    cases scope.covers b.issuer ||
      (row.storeGroup != "" && scopeManagesGroup scope row.storeGroup) with
    | false => rfl
    | true =>
      by_cases hg : b.storeGroup = row.storeGroup
      · simp [hg]
      · cases scope.platformWide <;> simp [hg]
  | none =>
    cases scope.covers b.issuer <;>
      cases (b.storeGroup != "" && scopeManagesGroup scope b.storeGroup) <;> rfl

/-- The loop over the issuers in force refuses a group that claims an issuer of the environment. -/
theorem trustedIssuer_forbidden (inst : Instance) (scope : AdminScope) (isNew : Bool) (b : Binding)
    (cfgs : List Daemon.Issuer) :
    (∃ e, Daemon.trustedIssuer inst scope isNew b cfgs = .error e ∧ e.status = 403) ↔
      isNew = true ∧ b.storeGroup ≠ "" ∧ scope.covers b.issuer = false ∧
        ((cfgs.find? fun ic => ic.issuer = b.issuer).any fun ic => ic.anchorSource ≠ .db) = true := by
  induction cfgs with
  | nil =>
    constructor
    · rintro ⟨e, h, -⟩
      cases h
    · rintro ⟨-, -, -, h⟩
      cases h
  | cons ic rest ih =>
    unfold Daemon.trustedIssuer
    by_cases hiss : ic.issuer = b.issuer
    · rw [if_neg (by simp [hiss])]
      by_cases hdb : ic.anchorSource = .db
      · simp [hiss, hdb]
      rw [if_neg hdb]
      by_cases hguard : (isNew && b.storeGroup ≠ "" && !scope.platformWide &&
          !scope.covers b.issuer) = true
      · rw [if_pos hguard]
        simp only [Bool.and_eq_true, decide_eq_true_eq, Bool.not_eq_true'] at hguard
        obtain ⟨⟨⟨hnew, hg⟩, -⟩, hcov⟩ := hguard
        simp [hnew, hg, hcov, hiss, hdb, Daemon.Reply.forbidden, Daemon.Reply.error]
      · rw [if_neg hguard]
        -- the credential covers the issuer, or the row keeps to the platform
        have hpass : isNew = true → b.storeGroup ≠ "" → scope.covers b.issuer = true := by
          intro hnew hg
          by_contra hcov
          rw [Bool.not_eq_true] at hcov
          have hwide : scope.platformWide = false := by
            rw [AdminScope.covers, Bool.or_eq_false_iff] at hcov
            exact hcov.1
          exact hguard (by simp [hnew, hg, hwide, hcov])
        refine ⟨?_, ?_⟩
        · rintro ⟨e, h, he⟩
          split at h
          · cases h
          rename_i hg
          split at h
          · obtain rfl := Except.error.inj h
            cases he
          · cases hrest : Daemon.trustedIssuer inst scope isNew b rest with
            | ok _ =>
              rw [hrest] at h
              cases h
            | error e' =>
              rw [hrest] at h
              obtain rfl := Except.error.inj h
              exact absurd (ih.mp ⟨e', hrest, he⟩).2.1 hg
        · rintro ⟨hnew, hg, hcov, -⟩
          rw [hpass hnew hg] at hcov
          cases hcov
    · rw [if_pos hiss, ih]
      simp [hiss]

/-- The loop finds the issuer among those in force. -/
theorem trustedIssuer_ok {inst : Instance} {scope : AdminScope} {isNew : Bool} {b : Binding}
    {cfgs : List Daemon.Issuer} {trusted : Bool}
    (h : Daemon.trustedIssuer inst scope isNew b cfgs = .ok trusted) :
    trusted = cfgs.any fun ic => ic.issuer = b.issuer := by
  induction cfgs generalizing trusted with
  | nil => exact (Except.ok.inj h).symm
  | cons ic rest ih =>
    unfold Daemon.trustedIssuer at h
    by_cases hiss : ic.issuer = b.issuer
    · have htrue : trusted = true := by
        rw [if_neg (by simp [hiss])] at h
        split at h
        · exact (Except.ok.inj h).symm
        split at h
        · cases h
        split at h
        · exact (Except.ok.inj h).symm
        split at h
        · cases h
        cases hrest : Daemon.trustedIssuer inst scope isNew b rest with
        | error _ =>
          rw [hrest] at h
          cases h
        | ok _ =>
          rw [hrest] at h
          exact (Except.ok.inj h).symm
      simp [htrue, hiss]
    · rw [if_pos hiss] at h
      simpa [hiss] using ih h

theorem trustedIssuer_unknown {inst : Instance} {scope : AdminScope} {isNew : Bool} {b : Binding}
    {cfgs : List Daemon.Issuer} (h : (cfgs.any fun ic => ic.issuer = b.issuer) = false) :
    Daemon.trustedIssuer inst scope isNew b cfgs = .ok false := by
  induction cfgs with
  | nil => rfl
  | cons ic rest ih =>
    simp only [List.any_cons, Bool.or_eq_false_iff, decide_eq_false_iff_not] at h
    rw [Daemon.trustedIssuer, if_pos h.1]
    exact ih h.2

theorem untrustedRefusal_forbidden (inst : Instance) (scope : AdminScope) (b : Binding) :
    ((Daemon.untrustedRefusal inst scope b).all fun e => e.status ≠ 403) =
      (b.storeGroup = "" || b.jwksUrl = "" || scopeManagesGroup scope b.storeGroup ||
        scope.platformWide) := by
  unfold Daemon.untrustedRefusal
  by_cases hkeys : b.storeGroup = "" ∨ b.jwksUrl = ""
  · rw [if_pos hkeys]
    rcases hkeys with hg | hj
    · simp [hg, Daemon.Reply.badRequest, Daemon.Reply.error]
    · simp [hj, Daemon.Reply.badRequest, Daemon.Reply.error]
  · rw [if_neg hkeys]
    rw [not_or] at hkeys
    simp only [hkeys.1, hkeys.2, decide_false, Bool.false_or]
    cases scopeManagesGroup scope b.storeGroup <;> cases scope.platformWide <;>
      cases Daemon.groupIssuerHostsAllowed inst.lib inst.mergeOptions b.issuer b.jwksUrl <;> rfl

/-- Whose right a write of a binding wants. -/
theorem bindingPassed_iff (scope : AdminScope) (b : Binding) :
    D.bindingPassed scope b = true ↔
      (Daemon.ownershipRefusal scope (Daemon.bindingRow D.rows b.issuer) b).isNone = true ∧
      ¬((Daemon.bindingRow D.rows b.issuer).isNone = true ∧ b.storeGroup ≠ "" ∧
        scope.covers b.issuer = false ∧ D.inst.fromEnv b.issuer = true) ∧
      ((D.inst.configs.any fun ic => ic.issuer = b.issuer) = false →
        (b.storeGroup = "" || b.jwksUrl = "" || scopeManagesGroup scope b.storeGroup ||
          scope.platformWide) = true) := by
  rw [← untrustedRefusal_forbidden D.inst, Instance.fromEnv, ← trustedIssuer_forbidden D.inst]
  unfold bindingPassed
  dsimp only
  rw [Bool.and_eq_true]
  refine and_congr Iff.rfl ?_
  cases htrust : Daemon.trustedIssuer D.inst scope (Daemon.bindingRow D.rows b.issuer).isNone b
      D.inst.configs with
  | error e =>
    have hknown : (D.inst.configs.any fun ic => ic.issuer = b.issuer) ≠ false := by
      intro hunknown
      rw [trustedIssuer_unknown hunknown] at htrust
      cases htrust
    simp [hknown]
  | ok trusted =>
    rw [← trustedIssuer_ok htrust]
    cases trusted <;> simp

/-- Who writes a binding over the API. -/
theorem apiAdmits_writeBinding (h : D.Aligned) (b : Binding) :
    D.apiAdmits (.writeBinding b) = true ↔ D.managesIssuers = true ∨
      match Daemon.bindingRow D.rows b.issuer with
      | some cur => b.storeGroup = cur.storeGroup ∧ (b.issuer = D.token.issuer ∨
          plainName cur.storeGroup = true ∧ D.managesGroup cur.storeGroup = true)
      | none => b.issuer = D.token.issuer ∨ (plainName b.storeGroup = true ∧
          D.managesGroup b.storeGroup = true ∧ D.inst.fromEnv b.issuer = false) := by
  have hr : Daemon.OnIssuers (.setIssuerBinding (some b)) := .of_path "issuer-bindings" rfl (by decide)
  obtain ⟨hwide, hcov, hgroup⟩ := OnIssuers.scope hr h
  unfold apiAdmits
  simp only [D.admin_eq]
  rw [bindingPassed_iff, ownershipRefusal_isNone]
  cases hplat : D.managesIssuers with
  -- the platform passes every test of the ownership and of the keys
  | true =>
    rw [hplat] at hwide hcov
    simp only [hcov, hwide, Bool.true_or, Bool.or_true, true_or, iff_true]
    refine ⟨?_, ?_, fun _ => trivial⟩
    · cases Daemon.bindingRow D.rows b.issuer <;> rfl
    · rintro ⟨-, -, hfalse, -⟩
      cases hfalse
  | false =>
    rw [hplat] at hwide hcov
    simp only [hplat, Bool.or_false] at hgroup
    have hmanaged : ∀ g, (g != "" && scopeManagesGroup (D.adminScope
        (AdminRequest.needs (.setIssuerBinding (some b)))) g) = true ↔
          plainName g = true ∧ D.managesGroup g = true := by
      intro g
      rw [hgroup, managesGroup]
      by_cases hg : g = "" <;> simp [hg]
    by_cases hown : b.issuer = D.token.issuer
    · -- the own issuer is in force, so only a move to another group is refused
      have hknown : (D.inst.configs.any fun ic => ic.issuer = b.issuer) = true := hown ▸ D.trusted
      have hcovers := hcov b.issuer
      simp only [hown, decide_true, Bool.or_true] at hcovers
      rw [hknown]
      cases Daemon.bindingRow D.rows b.issuer <;> simp [hown, hcovers, hwide]
    · have hcovers := hcov b.issuer
      simp only [hown, decide_false, Bool.or_self] at hcovers
      cases hcur : Daemon.bindingRow D.rows b.issuer with
      -- a row that is there stays in its group
      | some cur =>
        simp only [hcovers, hwide, hown, Bool.false_or, Bool.or_false, Bool.and_eq_true, Option.isNone_some,
          Bool.false_eq_true, false_and, not_false_eq_true, true_and, false_or, decide_eq_true_eq]
        rw [← Bool.and_eq_true, hmanaged]
        constructor
        · rintro ⟨⟨hm, hg⟩, -⟩
          exact ⟨hg, hm⟩
        · rintro ⟨hg, hm⟩
          refine ⟨⟨hm, hg⟩, fun _ => ?_⟩
          rw [← hg, ← hmanaged, Bool.and_eq_true] at hm
          simp [hm.2]
      -- a new row belongs to a group, and no environment has its issuer
      | none =>
        simp only [hcovers, hwide, hown, Bool.false_or, Bool.or_false, Option.isNone_none, true_and,
          Bool.false_eq_true, false_or, not_and, Bool.not_eq_true]
        rw [hmanaged]
        constructor
        · rintro ⟨hm, henv, -⟩
          have hg : b.storeGroup ≠ "" := by
            have := hm.2
            simp only [managesGroup, Bool.and_eq_true, decide_eq_true_eq] at this
            exact this.1
          exact ⟨hm.1, hm.2, henv hg⟩
        · rintro ⟨hplain, hm, henv⟩
          refine ⟨⟨hplain, hm⟩, fun _ => henv, fun _ => ?_⟩
          have hscope := (hmanaged b.storeGroup).mpr ⟨hplain, hm⟩
          rw [Bool.and_eq_true] at hscope
          simp [hscope.2]

/-! ## Where the doors agree -/

/-- The platform manages the stores that are claimed for it. -/
theorem manages_of_claimed {s : String} (hclaimed : claimed D.cfg D.roles s = true)
    (hcreate : D.consoleCan .canCreateStore D.cfg.platform = true) :
    D.consoleCan .canManageAccess ⟨.store, s⟩ = true := by
  unfold consoleCan canQ at hcreate ⊢
  rw [show Rel.isTesting _ = false from rfl, Bool.and_false, if_neg (by simp), tuplesFor_person]
    at hcreate ⊢
  have hrules : rulesOf .platform .canCreateStore = [.computed .admin] := by decide
  have hrule : .ttu .platform .admin ∈ rulesOf .store .canManageAccess := by decide
  cases hdepth : D.cfg.maxDepth with
  | zero =>
    rw [hdepth] at hcreate
    cases hcreate
  | succ depth =>
    rw [hdepth, check, show rulesOf D.cfg.platform.typ .canCreateStore = _ from hrules] at hcreate
    -- the link of the store to the platform hands the right on
    refine check_succ.mpr (.inr (.inr ⟨.platform, .admin, hrule, .link D.cfg.platform .platform ⟨.store, s⟩,
      List.mem_append_left _ (of_decide_eq_true hclaimed), rfl, rfl, rfl, ?_⟩))
    show check _ _ depth .admin D.cfg.platform = true
    simpa using hcreate

/-- Who manages the issuers of a group has a group to manage. -/
theorem issuerManager_of_managesGroup {g : String} (h : D.managesGroup g = true) :
    D.issuerManager = true := by
  rw [managesGroup, Bool.and_eq_true] at h
  have hcan := h.2
  unfold consoleCan canQ at hcan
  rw [show Rel.isTesting _ = false from rfl, Bool.and_false, if_neg (by simp), tuplesFor_person]
    at hcan
  obtain ⟨t, ht, hobj⟩ := exists_tuple_of_check hcan
  rw [issuerManager, Bool.or_eq_true, List.any_eq_true]
  rcases List.mem_append.mp ht with ht | ht
  · exact .inr ⟨t, ht, by simp [hobj, h.2]⟩
  · obtain ⟨team, -, rfl⟩ := mem_memberTuples.mp ht
    cases hobj

theorem lifecycleGate_person (s : String) : lifecycleGate D.cfg D.roles D.person s =
    (D.consoleCan .canManageAccess ⟨.store, s⟩ ||
      (!claimed D.cfg D.roles s && D.consoleCan .canCreateStore D.cfg.platform)) :=
  rfl

theorem readBinding_agree_iff (h : D.Aligned) (b : Binding) :
    D.consoleAdmits (.readBinding b) = D.apiAdmits (.readBinding b) ↔ D.SameRight (.readBinding b) := by
  have hmanager := @issuerManager_of_managesGroup D b.storeGroup
  have hplat : D.managesIssuers = true → D.issuerManager = true := by
    intro hm
    rw [issuerManager, hm, Bool.true_or]
  rw [consoleAdmits, apiAdmits_readBinding h, SameRight, Bool.eq_iff_iff]
  cases D.viaApi with
  | true =>
    simp only [if_true, Bool.and_eq_true, Bool.or_eq_true, decide_eq_true_eq]
    constructor
    · intro hiff hown
      exact (hiff.mpr (.inl (.inr hown))).1
    · intro hsame
      refine ⟨And.right, fun hread => ⟨?_, hread⟩⟩
      rcases hread with (hm | hown) | ⟨-, hg⟩
      · exact hplat hm
      · exact hsame hown
      · exact hmanager hg
  | false =>
    by_cases hown : b.issuer = D.token.issuer
    · simp [hown]
    · simp only [hown, Bool.false_eq_true, if_false, decide_false, Bool.or_false]
      cases D.managesIssuers <;> cases D.managesGroup b.storeGroup <;>
        cases plainName b.storeGroup <;> simp

theorem writeBinding_agree_iff (h : D.Aligned) (b : Binding) :
    D.consoleAdmits (.writeBinding b) = D.apiAdmits (.writeBinding b) ↔
      D.SameRight (.writeBinding b) := by
  rw [consoleAdmits, SameRight, Bool.eq_iff_iff, Bool.and_eq_true, Bool.or_eq_true, Bool.not_eq_true',
    apiAdmits_writeBinding h, saveGate, Bool.or_eq_true]
  cases D.managesIssuers with
  | true => simp
  | false =>
  cases Daemon.bindingRow D.rows b.issuer with
  | some cur =>
    by_cases hgroup : b.storeGroup = cur.storeGroup
    · by_cases hown : b.issuer = D.token.issuer
      · simp [hgroup, hown]
      · cases D.viaApi <;> cases D.managesGroup cur.storeGroup <;> simp [hgroup, hown]
    · simp [hgroup]
  | none =>
    by_cases hown : b.issuer = D.token.issuer
    · simp [hown]
    · by_cases hjwks : b.jwksUrl = ""
      · cases D.managesGroup b.storeGroup <;> cases plainName b.storeGroup <;>
          simp [hown, hjwks]
      · cases D.viaApi <;> cases D.managesGroup b.storeGroup <;> simp [hown, hjwks]

theorem deleteBinding_agree_iff (h : D.Aligned) (issuer : String) :
    D.consoleAdmits (.deleteBinding issuer) = D.apiAdmits (.deleteBinding issuer) ↔
      D.SameRight (.deleteBinding issuer) := by
  rw [consoleAdmits, apiAdmits_deleteBinding h, SameRight]
  cases D.managesIssuers with
  | true => simp
  | false =>
    by_cases hown : issuer = D.token.issuer
    · simp [hown]
    · cases Daemon.bindingRow D.rows issuer with
      | none => simp [hown]
      | some row =>
        cases D.managesGroup row.storeGroup <;> cases plainName row.storeGroup <;> simp [hown]

end Doors

/-! ## An auditor -/

/-- The type of a name. -/
def Typ.ofName (name : String) : Option Typ :=
  [Typ.user, .serviceAccount, .team, .platform, .registry, .group, .store, .namespace].find?
    fun t => t.name = name

/-- The relation of a name. -/
def Rel.ofName (name : String) : Option Rel :=
  [Rel.member, .admin, .issuerAdmin, .platform, .group, .owner, .author, .publisher, .sharer, .tester,
    .supporter, .auditor, .exporter, .viewer, .canManageIssuers, .canViewHealth, .canCreateStore,
    .canViewAllStores, .canView, .canRunTests, .canEditModel, .canPublish, .canRollout, .canGrant,
    .canViewAudit, .canExport, .canViewDecisions, .canManageAccess, .canTestOthers, .canTestExplainFull,
    .canTestSearch, .canTestHistory, .store, .namespace].find? fun r => r.name = name

theorem Typ.ofName_name (t : Typ) : Typ.ofName t.name = some t := by
  cases t <;> decide

theorem Rel.ofName_name (r : Rel) : Rel.ofName r.name = some r := by
  cases r <;> decide

/-- A membership as a tuple. -/
def tupleOf (m : Daemon.Membership) : Option RoleTuple := do
  let userType ← Typ.ofName m.userType
  let relation ← Rel.ofName m.relation
  let objectType ← Typ.ofName m.objectType
  return ⟨⟨userType, m.userId, none⟩, relation, ⟨objectType, m.objectId⟩⟩

/-- The answers of the console's store to questions by name. -/
def consoleAnswers (cfg : Config) (T : List RoleTuple) (_store typ id : String)
    (memberships : List Daemon.Membership) (q : Question) : Except String Bool :=
  match Typ.ofName typ, Rel.ofName q.relation, Typ.ofName q.objType with
  | some userType, some relation, some objectType =>
    .ok (check (T ++ memberships.filterMap tupleOf) ⟨userType, id, none⟩ cfg.maxDepth relation
      ⟨objectType, q.objId⟩)
  | _, _, _ => .error "unknown type or relation"

theorem filterMap_sentMemberships (typ : Typ) (id : String) (teams : List String) :
    (sentMemberships typ id teams).filterMap tupleOf = memberTuples ⟨typ, id, none⟩ teams := by
  unfold sentMemberships memberTuples
  rw [List.filterMap_map, ← List.filterMap_eq_map]
  congr 1
  funext team
  have hmember : Rel.ofName "member" = some .member := Rel.ofName_name .member
  have hteam : Typ.ofName "team" = some .team := Typ.ofName_name .team
  simp [tupleOf, Typ.ofName_name, hmember, hteam]

theorem consoleAnswers_ask (cfg : Config) (T : List RoleTuple) (store : String) (typ : Typ)
    (id : String) (teams : List String) (relation : Rel) (object : Obj) :
    consoleAnswers cfg T store typ.name id (sentMemberships typ id teams) (ask relation object) =
      .ok (check (T ++ memberTuples ⟨typ, id, none⟩ teams) ⟨typ, id, none⟩ cfg.maxDepth relation
        object) := by
  simp only [consoleAnswers, ask, Typ.ofName_name, Rel.ofName_name, filterMap_sentMemberships]

/-- A console with a store whose audit a team reads. -/
def auditedStore : Roles where
  tuples := ⟨[⟨⟨.team, "role_auditors", some .member⟩, .auditor, ⟨.store, "demo"⟩⟩], by decide⟩
  stores := [("demo", "")]
  groups := ["default"]
  issuerGroups := []

/-- The configuration of this console. -/
def auditedConfig : Config := ⟨"console", "default", false, 32⟩

/-- A member of the team, on both doors. -/
def auditor : Doors where
  cfg := auditedConfig
  registryId := "default"
  viaApi := false
  roles := auditedStore
  inst := { Daemon.tuplelessInstance with
    checkWithContextualTuples := consoleAnswers auditedConfig auditedStore.tuples.rows }
  token := { Daemon.strangerToken with roles := ["auditors"] }
  claim := .list ["auditors"]
  typ := .user
  id := "mallory"
  rule := ⟨["pgauthz:admin"], [], [], "", [], [], some ⟨"console", "", ""⟩⟩
  decision := ⟨"console", "", ""⟩
  rules := rfl
  satisfied := by decide +kernel
  decides := rfl
  trusted := by decide +kernel
  scope := by decide +kernel
  subject := by decide +kernel
  subjectType := rfl
  tokenRoles := by decide
  stores := rfl
  asks teams relation object := consoleAnswers_ask _ _ "console" _ _ teams relation object

theorem auditor_aligned : auditor.Aligned := by
  refine ⟨rfl, rfl, ?_, ?_⟩
  · decide +kernel
  · decide +kernel

end PgAuthz.Console
