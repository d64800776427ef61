import PgAuthz.Daemon.AdminScope

/-!
# The handlers of the management interface

Each management route has a handler. It passes the gate, compares the scope of the credential with
what the request names, checks the body, and then reads or writes through the admin backend.
`Effect` and `Record` are what a handler can change and what its answer can hold. The engine behind
the backend may still refuse a write, and a refused write changes nothing.

The handlers that need the direct backend of a full instance are modelled for such an instance: any
other one answers with 501 and does nothing. The actor that a write is recorded under is left out.

## Main definitions

* `Effect`, `Record`, `Reply`: what a request can do
* `Instance`: the gate, and the tables that the handlers read
* `requireStoreScope`, `requirePlatform`, `requireGroupOwner`, `scopeManagesGroup`: the checks of
  the scope
* `serve`: the handler of a request
-/

namespace PgAuthz.Daemon

/-! ## Effects and records -/

/-- The writes that the handlers hand to the engine. A write of a binding carries the owner that the
caller found: no row, or a row of a group. -/
inductive Effect
  | setIssuerBinding (b : Binding) (expect : Option String)
  | deleteIssuerBinding (issuer : String) (expectGroup : Option String)
  | upsertStore (s : String) (req : StoreUpsert)
  | deleteStore (s : String) (purgeAudit : Bool)
  | purgeStoreDecisions (s : String) (storeId : ℤ)
  | applyModel (s name : String) (version : Option ℕ)
  | setStoreGroup (s group : String)
  | setRecorderActions (s role : String) (actions : List String)
  | revokeRecorderActions (s role : String)
  | setNamespaceAccess (s ns role : String) (canRead canWrite : Bool)
  | revokeNamespaceAccess (s ns role : String)
  | upsertStoreGroup (group : String) (description : Option String)
  | deleteStoreGroup (group : String)
  | grantModelConsumer (group consumer : String)
  | revokeModelConsumer (group consumer : String)
  | publishModel (name fromStore : String)
  | keepTestStore
deriving DecidableEq, Repr

/-- A row of the history of the bindings. -/
structure AuditRow where
  seq : ℤ
  issuer : String
  storeGroup : String
deriving DecidableEq, Repr

/-- The records that an answer can hold. -/
inductive Record
  | issuer (ic : Issuer)
  | binding (b : Binding)
  | audit (row : AuditRow)
  | aliasHolder (issuer : String)
  | store (s : String)
  | storeDeletions (s : String)
  | storeModel (s : String)
  | storePlan (s name : String)
  | recorders (s : String)
  | namespaces (s : String)
  | subject (s typ id : String)
  | groups
  | modelConsumers (group : String)
  | modelVersions
  | modelRollout (name : String)
  | testReport (store : Option String)
deriving DecidableEq, Repr

/-- What the daemon answers: the status and the text of an error, the writes that took effect and
the records it shows. -/
structure Reply where
  status : ℕ
  message : String
  effects : List Effect
  records : List Record
deriving DecidableEq, Repr

/-- An answer that does nothing and shows nothing. -/
def Reply.error (status : ℕ) (message : String) : Reply := ⟨status, message, [], []⟩

/-- `writeBadRequest`. -/
def Reply.badRequest (message : String) : Reply := .error 400 message

/-- `writeForbidden`. -/
def Reply.forbidden (message : String) : Reply := .error 403 message

/-- An answer with records. -/
def Reply.records200 (records : List Record) : Reply := ⟨200, "", [], records⟩

/-- What the handlers read of the instance: the rows of the bindings, none if they cannot be read,
their history, newest first, the stores with their incarnations, the deletion receipts and the
decision sink, the plans of an apply, and the status with which the engine refuses a write. -/
structure Instance extends Gate where
  bindings : Option (List Binding)
  history : List AuditRow
  stores : List String
  incarnation : String → ℤ
  deletions : List (String × ℤ)
  decisionSink : Bool
  mergeOptions : MergeOptions
  planApply : String → String → Option ℕ → Option Bool
  engineRefuses : Effect → Option ℕ

/-- A write that the engine takes or refuses. -/
def Instance.write (inst : Instance) (e : Effect) : Reply :=
  match inst.engineRefuses e with
  | some status => .error status "the engine refused the write"
  | none => ⟨200, "", [e], []⟩

/-! ## The checks of the scope -/

/-- The text for a name of the wrong shape. -/
def badStoreName : String := "store names are [a-zA-Z_][a-zA-Z0-9_]*, at most 63 characters"

/-- The text for a group of the wrong shape. -/
def badGroupName : String := "store group names are [a-zA-Z_][a-zA-Z0-9_]*, at most 63 characters"

/-- The gate, with its refusal as an answer. -/
def Instance.admin (inst : Instance) (t : Token) (r : AdminRequest) : Except Reply AdminScope :=
  (requireAdmin inst.toGate t r).mapError .forbidden

/-- The refusal of a store that the scope does not cover. -/
def storeRefusal (scope : AdminScope) (s : String) : Reply :=
  .forbidden (scope.refusal (scope.decide.map fun d => ⟨d.needs.storeRel, "store", s⟩)
    ("this credential does not manage store '" ++ s ++
      "' (its issuer's stores binding, narrowed by its admin rule's stores, decides)"))

/-- A delegated credential may create the store that it does not manage. -/
def creatingStore (scope : AdminScope) (r : AdminRequest) (s : String) : Bool :=
  (scope.decide.any fun d => d.scopes.contains "admin" || d.scopes.contains "ci") &&
    r.method = .put && r.path == "stores/" ++ s && scope.platformWide

/-- `requireStoreScope`: the gate, then the scope must cover the path's store. -/
def requireStoreScope (inst : Instance) (t : Token) (r : AdminRequest) (s : String) :
    Except Reply AdminScope :=
  match inst.admin t r with
  | .error e => .error e
  | .ok scope =>
    if !plainName s then .error (.badRequest badStoreName)
    else if !scope.coversStore inst.lib s && !creatingStore scope r s then
      .error (storeRefusal scope s)
    else .ok scope

/-- `requirePlatform`. -/
def requirePlatform (inst : Instance) (t : Token) (r : AdminRequest) : Except Reply AdminScope :=
  match inst.admin t r with
  | .error e => .error e
  | .ok scope =>
    if scope.platformWide then .ok scope
    else .error (.forbidden (scope.refusal (scope.decide.map fun d => d.needs.plat)
      "the model registry needs platform scope"))

/-- `requireGroupOwner`: the group's own admins, or the platform's. -/
def requireGroupOwner (inst : Instance) (t : Token) (r : AdminRequest) (group : String) :
    Except Reply AdminScope :=
  match inst.admin t r with
  | .error e => .error e
  | .ok scope =>
    let allowed := match scope.decide with
      | none => scope.platform
      | some d => d.allowed ⟨"can_manage_access", "group", group⟩ ||
          d.allowed ⟨"can_manage_access", "platform", "default"⟩
    if !plainName group then .error (.badRequest badGroupName)
    else if allowed then .ok scope
    else .error (.forbidden (scope.refusal (some ⟨"can_manage_access", "platform", "default"⟩)
      ("sharing the models of store group '" ++ group ++
        "' is its admins' (can_manage_access on the group) or the platform's")))

/-- A handler on a store: the check of the scope, then the rest of the handler. -/
def onStore (inst : Instance) (t : Token) (r : AdminRequest) (s : String) (handler : Reply) : Reply :=
  match requireStoreScope inst t r s with
  | .error e => e
  | .ok _ => handler

/-- A handler of the platform: the check of the scope, then the rest of the handler. -/
def onPlatform (inst : Instance) (t : Token) (r : AdminRequest) (handler : Reply) : Reply :=
  match requirePlatform inst t r with
  | .error e => e
  | .ok _ => handler

/-- A handler on the consumers of a group's models. -/
def onGroup (inst : Instance) (t : Token) (r : AdminRequest) (group : String) (handler : Reply) :
    Reply :=
  match requireGroupOwner inst t r group with
  | .error e => e
  | .ok _ => handler

/-- `scopeManagesGroup`: the credential administers the issuers of the store group. -/
def scopeManagesGroup (scope : AdminScope) (group : String) : Bool :=
  plainName group && match scope.decide with
    | some d => d.allowed ⟨"can_manage_issuers", "group", group⟩ ||
        d.allowed ⟨"can_manage_issuers", "platform", "default"⟩
    | none => scope.platform

/-! ## Issuers -/

/-- `Resolve`: an address is taken as it is, an alias is looked up. -/
def resolve (lib : GoLib) (set : List (String × String)) (ref : String) : String :=
  let ref := trimSpace ref
  if ref = "" then ""
  else if startsWith ref "https://" || startsWith ref "http://" then ref
  else (set.lookup (lib.toLower ref)).getD ""

/-- `resolveIssuer`: an alias of an issuer in force, else of a row. -/
def Instance.resolveIssuer (inst : Instance) (ref : String) : String :=
  let iss := resolve inst.lib (inst.configs.map fun ic => (ic.aliasName, ic.issuer)) ref
  if iss ≠ "" then iss
  else match inst.bindings with
    | none => ""
    | some rows => resolve inst.lib (rows.map fun b => (inst.lib.toLower b.aliasName, b.issuer)) ref

/-- `visibleIssuers`. -/
def visibleIssuers (inst : Instance) (scope : AdminScope) : List Issuer :=
  if scope.platformWide then inst.configs
  else inst.configs.filter fun ic =>
    ic.issuer == scope.issuer || (ic.storeGroup != "" && scopeManagesGroup scope ic.storeGroup)

/-- `adminIssuers`. -/
def adminIssuers (inst : Instance) (t : Token) : Reply :=
  match inst.admin t .issuers with
  | .error e => e
  | .ok scope => .records200 ((visibleIssuers inst scope).map .issuer)

/-- The rows of the bindings within the scope. -/
def visibleBindings (scope : AdminScope) (rows : List Binding) : List Binding :=
  rows.filter fun b =>
    scope.covers b.issuer || (b.storeGroup != "" && scopeManagesGroup scope b.storeGroup)

/-- `adminIssuerBindings`. -/
def adminIssuerBindings (inst : Instance) (t : Token) (issuer : String) : Reply :=
  match inst.admin t (.issuerBindings issuer) with
  | .error e => e
  | .ok scope =>
    match inst.bindings with
    | none => .error 500 "internal error"
    | some rows =>
      let visible := visibleBindings scope rows
      if trimSpace issuer = "" then .records200 (visible.map .binding)
      else match visible.find? fun b => b.issuer = inst.resolveIssuer issuer with
        | some b => .records200 [.binding b]
        | none => .error 404 ("no binding for issuer " ++ trimSpace issuer)

/-- `list_issuer_bindings_audit`: one page of the history. -/
def listIssuerBindingsAudit (history : List AuditRow) (issuer : String) (groups : Option (List String))
    (limit : ℕ) (before : Option ℤ) : List AuditRow :=
  (history.filter fun row => (issuer = "" ∨ row.issuer = issuer) ∧
    (groups.all fun gs => gs.contains row.storeGroup) ∧ (before.all fun n => row.seq < n)).take limit

/-- `issuer_binding_history_groups`. -/
def historyGroups (history : List AuditRow) (issuer : String) : List String :=
  ((history.filter fun row => row.issuer = issuer ∧ row.storeGroup ≠ "").map (·.storeGroup)).dedup

/-- Whose history a credential reads, and the rows of which groups: the platform everything, else
its own issuer's, or of another one's the rows of the groups it manages. -/
def auditSelection (inst : Instance) (scope : AdminScope) (issuer : String) :
    Except Reply (String × Option (List String)) :=
  if scope.platformWide then .ok (issuer, none)
  else if issuer = "" then
    if scope.issuer ≠ "" then .ok (scope.issuer, none)
    else .error (.forbidden "management refused: name the issuer whose history to read (a group's issuer admin reads the group's issuers)")
  else if issuer ≠ scope.issuer then
    let groups := (historyGroups inst.history issuer).filter (scopeManagesGroup scope)
    if groups.isEmpty then .error (.forbidden "management refused: this credential reads the history of its own issuer, or of its store groups' issuers")
    else .ok (issuer, some groups)
  else .ok (issuer, none)

/-- `adminIssuerBindingsAudit`. -/
def adminIssuerBindingsAudit (inst : Instance) (t : Token) (issuer : String) (limit : ℤ)
    (before : Option (Option ℤ)) : Reply :=
  match inst.admin t (.issuerBindingsAudit issuer limit before) with
  | .error e => e
  | .ok scope =>
    let named := trimSpace issuer
    -- an alias reads as its address
    let resolved := inst.resolveIssuer named
    match auditSelection inst scope (if resolved ≠ "" then resolved else named) with
    | .error e => e
    | .ok (iss, groups) =>
      let limit := if limit ≤ 0 ∨ limit > 500 then 25 else limit
      if before.any fun n => n.all (· ≤ 0) then
        .badRequest "before must be the previous page's next (a sequence number)"
      else
        .records200 ((listIssuerBindingsAudit inst.history iss groups limit.toNat
          (before.bind id)).map .audit)

/-! ## Writing a binding -/

/-- The issuer that a binding names: by its address, or by an alias in use. -/
def Instance.namedIssuer (inst : Instance) (named : String) : String :=
  if startsWith named "https://" || startsWith named "http://" then named
  else inst.resolveIssuer named

/-- The issuer that holds an alias. -/
def Instance.aliasHolder (inst : Instance) (a : String) : String :=
  if a = "" then "" else inst.resolveIssuer a

/-- The body of a binding with its issuer and alias in their normal form. -/
def normalizeBinding (inst : Instance) (body : Option Binding) : Except Reply Binding :=
  match body with
  | none => .error (.badRequest "invalid JSON")
  | some b =>
    let named := trimSpace b.issuer
    if named = "" then .error (.badRequest "issuer is required (the token's iss)")
    else
      let iss := inst.namedIssuer named
      if iss = "" then
        .error (.badRequest ("issuer " ++ named ++ " is neither an issuer URL nor a known alias"))
      else match validAlias inst.lib b.aliasName with
        | none => .error (.badRequest ("alias \"" ++ b.aliasName ++
            "\": letters, digits, _ and - only (max 64), starting with a letter or digit"))
        | some a =>
          let other := inst.aliasHolder a
          if other ≠ "" ∧ other ≠ iss then
            -- the text of the refusal names the holder of the alias
            .error ⟨400, "alias " ++ a ++ " already names issuer " ++ other, [], [.aliasHolder other]⟩
          else .ok { b with issuer := iss, aliasName := a }

/-- `ownerLabel`. -/
def ownerLabel (group : String) : String :=
  if group = "" then "the platform" else "store group '" ++ group ++ "'"

/-- The question that `scopeManagesGroup` and `covers` ask last. -/
def askedIssuers : Question := ⟨"can_manage_issuers", "platform", "default"⟩

/-- Ownership: an existing row is written by whoever manages it as it is, its group is changed by the
platform alone, and a new row needs the issuer's own scope or its group's admins. -/
def ownershipRefusal (scope : AdminScope) (cur : Option Binding) (b : Binding) : Option Reply :=
  let groupManaged := b.storeGroup != "" && scopeManagesGroup scope b.storeGroup
  match cur with
  | some row =>
    if !(scope.platformWide || scope.covers b.issuer ||
        (row.storeGroup != "" && scopeManagesGroup scope row.storeGroup)) then
      some (.forbidden (scope.refusal (some askedIssuers)
        (if row.storeGroup = "" then "this token manages the issuer " ++ scope.issuer ++ " only"
          else "this binding belongs to " ++ ownerLabel row.storeGroup ++
            ": its admins or the platform change it")))
    else if b.storeGroup ≠ row.storeGroup && !scope.platformWide then
      some (.forbidden (scope.refusal (some askedIssuers) ("moving an issuer from " ++
        ownerLabel row.storeGroup ++ " to " ++ ownerLabel b.storeGroup ++ " is a platform decision")))
    else none
  | none =>
    if !scope.covers b.issuer && !groupManaged then
      some (.forbidden (scope.refusal (some askedIssuers) ("this token manages the issuer " ++
        scope.issuer ++ " only (a group issuer needs can_manage_issuers on its group)")))
    else none

/-- An entry of the environment with nothing but its name and its stores. -/
def bareIssuer (iss : String) (stores : List String) : Issuer :=
  ⟨iss, "", "", [], "", .unset, "", "", stores, [], [], [], false, .unset, [], []⟩

/-- `Merge` of one bare entry with one row of its issuer reports a problem. -/
def mergeProblem (lib : GoLib) (envStores : List String) (b : Binding) : Bool :=
  !b.admin.isEmpty || !narrowing lib envStores b.stores ||
    (validateBindings lib ((bareIssuer b.issuer envStores).withRow b b.aliasName)).isSome

/-- The stores that the environment binds for an issuer in force. -/
def Issuer.boundStores (ic : Issuer) : List String :=
  if ic.bindingSource = .db then ic.envStores else ic.stores

/-- The loop over the issuers in force: is the issuer trusted, and does the row narrow what the
environment binds. -/
def trustedIssuer (inst : Instance) (scope : AdminScope) (isNew : Bool) (b : Binding) :
    List Issuer → Except Reply Bool
  | [] => .ok false
  | ic :: rest =>
    if ic.issuer ≠ b.issuer then trustedIssuer inst scope isNew b rest
    else if ic.anchorSource = .db then .ok true
    else if isNew && b.storeGroup ≠ "" && !scope.platformWide && !scope.covers b.issuer then
      .error (.forbidden (scope.refusal (some askedIssuers) ("issuer " ++ b.issuer ++
        " is the platform's (JWT_ISSUERS): binding it to a store group is a platform decision")))
    else if b.storeGroup ≠ "" then .ok true
    else if mergeProblem inst.lib ic.boundStores b then
      .error (.badRequest "binding ignored")
    else (trustedIssuer inst scope isNew b rest).map fun _ => true

/-- An issuer that is not trusted comes with its own keys for a group, by someone who manages it. -/
def untrustedRefusal (inst : Instance) (scope : AdminScope) (b : Binding) : Option Reply :=
  if b.storeGroup = "" ∨ b.jwksUrl = "" then
    some (.badRequest ("issuer " ++ b.issuer ++ " is not trusted by this instance (JWT_ISSUERS): a binding cannot add trust; a group issuer — store_group and jwks_url, with an audience — may be added by the group's admins (ADR 0017)"))
  else if !scopeManagesGroup scope b.storeGroup && !scope.platformWide then
    some (.forbidden (scope.refusal (some askedIssuers) ("adding an identity provider for store group '" ++
      b.storeGroup ++ "' needs can_manage_issuers on that group, or platform scope")))
  else if !groupIssuerHostsAllowed inst.lib inst.mergeOptions b.issuer b.jwksUrl then
    some (.badRequest "group issuer refused")
  else none

/-- The bindings of a row as an issuer, for `ValidateBindings`. -/
def Binding.asIssuer (b : Binding) : Issuer :=
  ⟨"", "", "", [], "", .unset, "", "", b.stores, b.dbRoles, b.clientDbRoles, b.pepClients, false,
    .unset, [], b.admin⟩

/-- The bindings of a row are valid, and its management rules delegate. -/
def validRow (lib : GoLib) (b : Binding) : Bool :=
  (validateBindings lib b.asIssuer).isNone && (delegatedOnly b.admin).isNone

/-- `bindingRow`: the current row of an issuer. -/
def bindingRow (rows : List Binding) (issuer : String) : Option Binding :=
  rows.find? fun b => b.issuer = issuer

/-- `adminSetIssuerBinding` after the body has its normal form and the rows are read. -/
def writeBinding (inst : Instance) (scope : AdminScope) (rows : List Binding) (b : Binding) : Reply :=
  let cur := bindingRow rows b.issuer
  match ownershipRefusal scope cur b with
  | some e => e
  | none =>
    if !validRow inst.lib b then .badRequest "invalid binding"
    else match trustedIssuer inst scope cur.isNone b inst.configs with
      | .error e => e
      | .ok trusted =>
        match if trusted then none else untrustedRefusal inst scope b with
        | some e => e
        | none => inst.write (.setIssuerBinding b (cur.map (·.storeGroup)))

/-- `adminSetIssuerBinding`. -/
def adminSetIssuerBinding (inst : Instance) (t : Token) (body : Option Binding) : Reply :=
  match inst.admin t (.setIssuerBinding body) with
  | .error e => e
  | .ok scope =>
    match normalizeBinding inst body with
    | .error e => e
    | .ok b =>
      match inst.bindings with
      | none => .error 500 "internal error"
      | some rows => writeBinding inst scope rows b

/-- `adminDeleteIssuerBinding`. -/
def adminDeleteIssuerBinding (inst : Instance) (t : Token) (issuer : String) : Reply :=
  match inst.admin t (.deleteIssuerBinding issuer) with
  | .error e => e
  | .ok scope =>
    let iss := inst.resolveIssuer issuer
    if iss = "" then
      if trimSpace issuer = "" then .badRequest "issuer query parameter is required"
      else .error 404 ("no binding for issuer " ++ trimSpace issuer)
    else match inst.bindings with
      | none => .error 500 "internal error"
      | some rows =>
        let cur := bindingRow rows iss
        if !scope.covers iss &&
            !(cur.any fun row => row.storeGroup != "" && scopeManagesGroup scope row.storeGroup) then
          .forbidden (scope.refusal (some askedIssuers)
            ("this token manages the issuer " ++ scope.issuer ++ " only"))
        else inst.write (.deleteIssuerBinding iss (cur.map (·.storeGroup)))

/-! ## Stores -/

/-- `adminStores`. -/
def adminStores (inst : Instance) (t : Token) : Reply :=
  match inst.admin t .stores with
  | .error e => e
  | .ok scope => .records200 ((inst.stores.filter fun s => scope.coversStore inst.lib s).map .store)

/-- `adminStore`. -/
def adminStore (inst : Instance) (t : Token) (s : String) : Reply :=
  onStore inst t (.store s) s <|
    if inst.stores.contains s then .records200 [.store s] else .error 404 ("no store " ++ s)

/-- `adminUpsertStore`. -/
def adminUpsertStore (inst : Instance) (t : Token) (s : String) (body : Option StoreUpsert) : Reply :=
  onStore inst t (.upsertStore s body) s <|
    match body with
    | none => .badRequest "invalid JSON"
    | some req => inst.write (.upsertStore s req)

/-- `adminDeleteStore`. A purge of the decision log that was asked for and cannot run refuses the
whole request. -/
def adminDeleteStore (inst : Instance) (t : Token) (s : String) (purgeAudit purgeDecisions : Bool) :
    Reply :=
  onStore inst t (.deleteStore s purgeAudit purgeDecisions) s <|
    if purgeDecisions && !inst.decisionSink then
      .error 501 "purge_decisions: this instance writes no postgres decision-log sink (DECISION_LOG=postgres); delete without it, or purge from the console or an instance that does"
    else
      let done := inst.write (.deleteStore s purgeAudit)
      { done with
        effects := done.effects ++ if purgeDecisions && !done.effects.isEmpty then
          [.purgeStoreDecisions s (inst.incarnation s)] else [] }

/-- `adminPurgeStoreDecisions`. -/
def adminPurgeStoreDecisions (inst : Instance) (t : Token) (s : String) (storeId : Option ℤ) : Reply :=
  onStore inst t (.purgeStoreDecisions s storeId) s <|
    match storeId.filter (0 < ·) with
    | none => .badRequest "store_id is required: the deleted incarnation, from the deletion's answer or GET …/stores/\x7bstore\x7d/deletions"
    | some id =>
      if !inst.decisionSink then
        .error 501 "this instance writes no postgres decision-log sink (DECISION_LOG=postgres)"
      else if !inst.deletions.contains (s, id) then .error 404 "no deletion receipt"
      else inst.write (.purgeStoreDecisions s id)

/-- `adminStoreDeletions`. -/
def adminStoreDeletions (inst : Instance) (t : Token) (s : String) : Reply :=
  onStore inst t (.storeDeletions s) s (.records200 [.storeDeletions s])

/-- `adminStoreModel`. -/
def adminStoreModel (inst : Instance) (t : Token) (s : String) : Reply :=
  onStore inst t (.storeModel s) s (.records200 [.storeModel s])

/-- `modelNameRe`. -/
def modelName (name : String) : Bool :=
  match name.toList with
  | [] => false
  | c :: cs => (c.isAlpha || c == '_') && cs.all fun c => c.isAlphanum || c == '_'

/-- The version of a model reference: a positive decimal number. -/
def modelVersion (digits : List Char) : Option ℕ :=
  let digits := if digits.head? = some '+' then digits.tail else digits
  if digits.isEmpty || digits.any fun c => !c.isDigit then none
  else some (digits.foldl (fun n c => 10 * n + (c.toNat - '0'.toNat)) 0) |>.filter fun n =>
    1 ≤ n ∧ n < 2 ^ 63

/-- `parseModelRef`: `name` or `name@version`. -/
def parseModelRef (ref : String) : Option (String × Option ℕ) :=
  let cs := (trimSpace ref).toList
  let name := String.ofList (cs.takeWhile (· ≠ '@'))
  if !modelName name then none
  else match cs.dropWhile (· ≠ '@') with
    | [] => some (name, none)
    | _ :: version => (modelVersion version).map fun n => (name, some n)

/-- `adminApplyModel`: the plan, and the rollout if it has no blockers. -/
def adminApplyModel (inst : Instance) (t : Token) (s : String) (model : Option String) (plan : Bool) :
    Reply :=
  onStore inst t (.applyModel s model plan) s <|
    match model with
    | none => .badRequest "invalid JSON"
    | some ref =>
      match parseModelRef ref with
      | none => .badRequest "model must be \"name\" or \"name@version\""
      | some (name, version) =>
        match inst.planApply s name version with
        | none => .error 400 "the plan failed"
        | some canApply =>
          if plan then .records200 [.storePlan s name]
          else if !canApply then
            ⟨409, "the plan reports blockers; nothing was applied", [], [.storePlan s name]⟩
          else
            let done := inst.write (.applyModel s name version)
            { done with records := if done.effects.isEmpty then [] else [.storePlan s name] }

/-- `adminSetStoreGroup`: moving a store between groups is the platform's. -/
def adminSetStoreGroup (inst : Instance) (t : Token) (s : String) (group : Option String) : Reply :=
  onPlatform inst t (.setStoreGroup s group) <|
    if !plainName s then .badRequest badStoreName
    else match group with
      | none => .badRequest "invalid JSON"
      | some g =>
        if g ≠ "" && !plainName g then .badRequest (badGroupName ++ " (empty detaches)")
        else inst.write (.setStoreGroup s g)

/-! ## Recorders, namespaces and data subjects -/

/-- `roleNameRe`. -/
def roleName (role : String) : Bool := plainName role

/-- The text for a role of the wrong shape. -/
def badRoleName : String := "db roles are [a-zA-Z_][a-zA-Z0-9_]*, at most 63 characters"

/-- `adminRecorders`. -/
def adminRecorders (inst : Instance) (t : Token) (s : String) : Reply :=
  onStore inst t (.recorders s) s (.records200 [.recorders s])

/-- `adminSetRecorder`. -/
def adminSetRecorder (inst : Instance) (t : Token) (s role : String) (actions : Option (List String)) :
    Reply :=
  onStore inst t (.setRecorder s role actions) s <|
    if !roleName role then .badRequest badRoleName
    else match actions with
      | none => .badRequest "invalid JSON"
      | some [] =>
        .badRequest "actions must name at least one declared relation (DELETE lifts the allowlist)"
      | some as => inst.write (.setRecorderActions s role as)

/-- `adminDeleteRecorder`. -/
def adminDeleteRecorder (inst : Instance) (t : Token) (s role : String) : Reply :=
  onStore inst t (.deleteRecorder s role) s (inst.write (.revokeRecorderActions s role))

/-- `namespaceRe`. -/
def namespaceName (ns : String) : Bool :=
  match ns.toList with
  | [] => false
  | c :: cs => (c.isAlphanum || c == '_') &&
      (cs.all fun c => c.isAlphanum || c == '_' || c == '.' || c == '-') && decide (cs.length ≤ 62)

/-- `namespaceAndRole`: the refusal of a namespace or a role of the wrong shape. -/
def namespaceAndRole (ns role : String) : Option Reply :=
  if !namespaceName ns then
    some (.badRequest "namespaces are [a-zA-Z0-9_][a-zA-Z0-9_.-]*, at most 63 characters")
  else if !roleName role then some (.badRequest badRoleName)
  else none

/-- `adminNamespaces`. -/
def adminNamespaces (inst : Instance) (t : Token) (s : String) : Reply :=
  onStore inst t (.namespaces s) s (.records200 [.namespaces s])

/-- `adminSetNamespaceAccess`. -/
def adminSetNamespaceAccess (inst : Instance) (t : Token) (s ns role : String)
    (body : Option (Bool × Bool)) : Reply :=
  onStore inst t (.setNamespaceAccess s ns role body) s <|
    (namespaceAndRole ns role).getD <|
      match body with
      | none => .badRequest "invalid JSON"
      | some (canRead, canWrite) => inst.write (.setNamespaceAccess s ns role canRead canWrite)

/-- `adminDeleteNamespaceAccess`. -/
def adminDeleteNamespaceAccess (inst : Instance) (t : Token) (s ns role : String) : Reply :=
  onStore inst t (.deleteNamespaceAccess s ns role) s <|
    (namespaceAndRole ns role).getD (inst.write (.revokeNamespaceAccess s ns role))

/-- `subjectPath` and `subjectLimit`: the refusal of a subject or a limit out of range. A limit that
is absent is in range, one that is no number is below it. -/
def subjectRefusal (typ id : String) (limit : Option ℤ) : Option Reply :=
  if !plainName typ then
    some (.badRequest "subject types are [a-zA-Z_][a-zA-Z0-9_]*, at most 63 characters")
  else if id = "" ∨ id = "*" then some (.badRequest "a data subject is one concrete id (no wildcard)")
  else if limit.any fun n => n < 1 ∨ 1000000 < n then
    some (.badRequest "limit must be an integer in [1, 1000000]")
  else none

/-- `adminSubjectObjects`. -/
def adminSubjectObjects (inst : Instance) (t : Token) (s typ id : String) (limit : Option ℤ) : Reply :=
  onStore inst t (.subjectObjects s typ id limit) s <|
    (subjectRefusal typ id limit).getD (.records200 [.subject s typ id])

/-- `adminSubjectExport`. -/
def adminSubjectExport (inst : Instance) (t : Token) (s typ id : String) (limit : Option ℤ) : Reply :=
  onStore inst t (.subjectExport s typ id limit) s <|
    (subjectRefusal typ id limit).getD (.records200 [.subject s typ id])

/-! ## Groups and the registry -/

/-- `adminGroups`. -/
def adminGroups (inst : Instance) (t : Token) : Reply :=
  onPlatform inst t .groups (.records200 [.groups])

/-- `adminUpsertGroup`. -/
def adminUpsertGroup (inst : Instance) (t : Token) (group : String) (body : Option (Option String)) :
    Reply :=
  onPlatform inst t (.upsertGroup group body) <|
    if !plainName group then .badRequest badGroupName
    else match body with
      | none => .badRequest "invalid JSON"
      | some description => inst.write (.upsertStoreGroup group description)

/-- `adminDeleteGroup`. -/
def adminDeleteGroup (inst : Instance) (t : Token) (group : String) : Reply :=
  onPlatform inst t (.deleteGroup group) <|
    if !plainName group then .badRequest badGroupName else inst.write (.deleteStoreGroup group)

/-- `adminModelConsumers`. -/
def adminModelConsumers (inst : Instance) (t : Token) (group : String) : Reply :=
  onGroup inst t (.modelConsumers group) group (.records200 [.modelConsumers group])

/-- `adminGrantModelConsumer`. -/
def adminGrantModelConsumer (inst : Instance) (t : Token) (group consumer : String) : Reply :=
  onGroup inst t (.grantModelConsumer group consumer) group <|
    if !plainName consumer then .badRequest badGroupName
    else inst.write (.grantModelConsumer group consumer)

/-- `adminRevokeModelConsumer`. -/
def adminRevokeModelConsumer (inst : Instance) (t : Token) (group consumer : String) : Reply :=
  onGroup inst t (.revokeModelConsumer group consumer) group <|
    if !plainName consumer then .badRequest badGroupName
    else inst.write (.revokeModelConsumer group consumer)

/-- The text for a model of the wrong shape. -/
def badModelName : String := "model names are [a-zA-Z_][a-zA-Z0-9_]*"

/-- `adminModels`. -/
def adminModels (inst : Instance) (t : Token) (name : String) : Reply :=
  onPlatform inst t (.models name) <|
    if trimSpace name ≠ "" && !modelName (trimSpace name) then .badRequest badModelName
    else .records200 [.modelVersions]

/-- `adminModelRollout`. -/
def adminModelRollout (inst : Instance) (t : Token) (name : String) : Reply :=
  onPlatform inst t (.modelRollout name) <|
    if !modelName name then .badRequest badModelName else .records200 [.modelRollout name]

/-- `adminPublishModel`. -/
def adminPublishModel (inst : Instance) (t : Token) (name : String) (body : Option Publish) : Reply :=
  onPlatform inst t (.publishModel name body) <|
    if !modelName name then .badRequest badModelName
    else match body with
      | none => .badRequest "invalid JSON"
      | some req =>
        if ([req.fromStore != "", req.definition, req.openfga].filter id).length ≠ 1 then
          .badRequest "exactly one of from_store (a store's live model), definition (the export shape) or openfga (an OpenFGA model, converted on the server) publishes the next version"
        else if req.fromStore ≠ "" && !plainName req.fromStore then .badRequest badStoreName
        else inst.write (.publishModel name req.fromStore)

/-- The fixture of a test request with the store that it tests, or what is wrong with it. -/
def testFixture (req : TestModel) : Except Reply Fixture :=
  match req.fixture with
  | none => .error (.badRequest "fixture is required: the tests.authz.yaml text")
  | some fix =>
    if req.store ≠ "" && (fix.modelFile ≠ "" || fix.model ≠ "") then
      .error (.badRequest "store: the fixture already names its model (model_file / model)")
    else
      let fix := if req.store ≠ "" then { fix with store := req.store } else fix
      if !fix.valid ∨ ([fix.modelFile, fix.model, fix.store].filter (· ≠ "")).length ≠ 1 then
        .error (.badRequest "fixture: exactly one of model_file / model (registry ref) / store (a live store's model) is required")
      else if fix.modelFile ≠ "" && !req.openfga then
        .error (.badRequest "openfga is required when the fixture names a model_file: the OpenFGA model the file parses to (the server cannot read the client's files)")
      else if fix.modelFile = "" && req.openfga then
        .error (.badRequest "openfga is only taken with a fixture that names a model_file")
      else .ok fix

/-- The credential may keep the store of a test. -/
def AdminScope.keepAllowed (s : AdminScope) : Bool :=
  match s.decide with
  | none => s.platform
  | some d => (d.scopes.contains "admin" || d.scopes.contains "ci") &&
      d.allowed ⟨"can_create_store", "platform", "default"⟩

/-- The scope of a test: a live store's fixture is that store's business, one with a model of its own
reads the registry, and keeping the test's store creates one. -/
def testRefusal (lib : GoLib) (scope : AdminScope) (fix : Fixture) (keepStore : Bool) : Option Reply :=
  if fix.store ≠ "" && !plainName fix.store then some (.badRequest badStoreName)
  else if fix.store ≠ "" && !scope.coversStore lib fix.store then some (storeRefusal scope fix.store)
  else if fix.store = "" && scope.decide.isSome && !scope.platformWide then
    some (.forbidden (scope.refusal (scope.decide.map fun d => d.needs.plat)
      "a fixture with a model of its own needs the registry"))
  else if keepStore && !scope.keepAllowed then
    some (.forbidden (scope.refusal (some ⟨"can_create_store", "platform", "default"⟩)
      "keep_store commits a store outside every issuer binding; it needs platform scope"))
  else none

/-- `adminTestModel`. -/
def adminTestModel (inst : Instance) (t : Token) (body : Option TestModel) : Reply :=
  match inst.admin t (.testModel body) with
  | .error e => e
  | .ok scope =>
    match body with
    | none => .badRequest "invalid JSON"
    | some req =>
      match testFixture req with
      | .error e => e
      | .ok fix =>
        match testRefusal inst.lib scope fix req.keepStore with
        | some e => e
        | none =>
          let report := Record.testReport (if fix.store = "" then none else some fix.store)
          if req.keepStore then
            let done := inst.write .keepTestStore
            { done with records := if done.effects.isEmpty then [] else [report] }
          else .records200 [report]

/-! ## Every route -/

/-- The handler of a management request. -/
def serve (inst : Instance) (t : Token) : AdminRequest → Reply
  | .issuers => adminIssuers inst t
  | .issuerBindings issuer => adminIssuerBindings inst t issuer
  | .issuerBindingsAudit issuer limit before => adminIssuerBindingsAudit inst t issuer limit before
  | .setIssuerBinding body => adminSetIssuerBinding inst t body
  | .deleteIssuerBinding issuer => adminDeleteIssuerBinding inst t issuer
  | .stores => adminStores inst t
  | .store s => adminStore inst t s
  | .upsertStore s body => adminUpsertStore inst t s body
  | .deleteStore s purgeAudit purgeDecisions => adminDeleteStore inst t s purgeAudit purgeDecisions
  | .purgeStoreDecisions s storeId => adminPurgeStoreDecisions inst t s storeId
  | .storeDeletions s => adminStoreDeletions inst t s
  | .storeModel s => adminStoreModel inst t s
  | .applyModel s model plan => adminApplyModel inst t s model plan
  | .setStoreGroup s group => adminSetStoreGroup inst t s group
  | .recorders s => adminRecorders inst t s
  | .setRecorder s role actions => adminSetRecorder inst t s role actions
  | .deleteRecorder s role => adminDeleteRecorder inst t s role
  | .namespaces s => adminNamespaces inst t s
  | .setNamespaceAccess s ns role body => adminSetNamespaceAccess inst t s ns role body
  | .deleteNamespaceAccess s ns role => adminDeleteNamespaceAccess inst t s ns role
  | .subjectObjects s typ id limit => adminSubjectObjects inst t s typ id limit
  | .subjectExport s typ id limit => adminSubjectExport inst t s typ id limit
  | .groups => adminGroups inst t
  | .upsertGroup group body => adminUpsertGroup inst t group body
  | .deleteGroup group => adminDeleteGroup inst t group
  | .modelConsumers group => adminModelConsumers inst t group
  | .grantModelConsumer group consumer => adminGrantModelConsumer inst t group consumer
  | .revokeModelConsumer group consumer => adminRevokeModelConsumer inst t group consumer
  | .models name => adminModels inst t name
  | .testModel body => adminTestModel inst t body
  | .publishModel name body => adminPublishModel inst t name body
  | .modelRollout name => adminModelRollout inst t name

end PgAuthz.Daemon
