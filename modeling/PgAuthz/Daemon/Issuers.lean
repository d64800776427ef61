import Mathlib.Data.List.Sort
import Mathlib.Data.List.Dedup
import Mathlib.Data.List.Induction
import Mathlib.Data.String.Basic

/-!
# Trusted issuers

The daemon trusts the issuers of its environment. A row of the database can replace what such an
issuer's tokens may do, within the stores that the environment lists, and it can bring an issuer of
its own for a store group. The issuers in force after a merge decide which tokens are accepted and
which stores they reach.

## Main definitions

* `GoLib`: what the daemon takes from the standard library of its language
* `Issuer`, `Binding`, `AdminBinding`: entries of the environment, rows and management rules
* `covered`, `validateBindings`, `mergeWith`: `Covered`, `ValidateBindings`, `MergeWith`
* `listIssuerBindings`: the rows as the engine resolves them
* `IssuerSet`, `newIssuerSet`, `pickValidator`, `storeChecked`: the issuers in force

## Main results

* `covered_matches`: what a covered pattern matches, one of the covering patterns matches
* `storesInForce_last`: the stores in force of an issuer with a store list are those of its last entry
-/

namespace PgAuthz.Daemon

/-! ## Texts -/

/-- `unicode.IsSpace`. -/
def isSpace (c : Char) : Bool :=
  c.toNat ∈ [0x09, 0x0A, 0x0B, 0x0C, 0x0D, 0x20, 0x85, 0xA0, 0x1680, 0x2028, 0x2029, 0x202F, 0x205F,
    0x3000] ∨ (0x2000 ≤ c.toNat ∧ c.toNat ≤ 0x200A)

/-- `strings.TrimSpace`. -/
def trimSpace (s : String) : String :=
  String.ofList ((s.toList.dropWhile isSpace).reverse.dropWhile isSpace).reverse

/-- `strings.ContainsAny`. -/
def containsAny (s chars : String) : Bool := s.toList.any fun c => chars.toList.contains c

/-- The characters that make a store pattern a pattern rather than a plain name. -/
def regexMeta : String := "\\^$.|?*+()[]\x7b\x7d"

/-- What the daemon takes from the standard library: the matcher that `^(?:pattern)$` compiles to,
Unicode lower case, the host of a URL and a host without its port. A pattern without special
characters compiles and matches exactly itself. -/
structure GoLib where
  anchored : String → Option (String → Bool)
  toLower : String → String
  urlHost : String → String
  stripPort : String → String
  anchored_plain : ∀ p, containsAny p regexMeta = false → anchored p = some fun s => s == p

/-- The compiled pattern matches. -/
def GoLib.matchesPattern (lib : GoLib) (pattern s : String) : Bool :=
  (lib.anchored pattern).any fun re => re s

/-- `Covered`: the pattern is one of the list, or a plain name that one of the list matches. -/
def covered (lib : GoLib) (pattern : String) (within : List String) : Bool :=
  within.any fun w =>
    w == pattern || (!containsAny pattern regexMeta && lib.matchesPattern w pattern)

/-! ## Issuers and rows -/

/-- `AdminDecision`: the store that decides a delegated rule, and how a token is a subject of it. -/
structure AdminDecision where
  store : String
  subjectType : String
  subjectClaim : String
deriving DecidableEq, Repr

/-- `AdminBinding`: one management rule of an issuer. -/
structure AdminBinding where
  scopes : List String
  claims : List (String × List String)
  clients : List String
  scope : String
  capabilities : List String
  stores : List String
  decide : Option AdminDecision
deriving DecidableEq, Repr

/-- `AdminBinding.Empty`: the rule would admit every token of the issuer. -/
def AdminBinding.empty (a : AdminBinding) : Bool :=
  a.scopes.isEmpty && a.claims.isEmpty && a.clients.isEmpty && a.decide.isNone

/-- Where an anchor or a binding came from. -/
inductive Source
  | unset
  | env
  | db
deriving DecidableEq, Repr

/-- An entry of `JWT_ISSUERS`, with its bindings. -/
structure Issuer where
  issuer : String
  aliasName : String
  audience : String
  audiences : List String
  storeGroup : String
  anchorSource : Source
  jwksUrl : String
  jwksFile : String
  stores : List String
  dbRoles : List String
  clientDbRoles : List (String × String)
  pepClients : List (String × List String)
  disabled : Bool
  bindingSource : Source
  envStores : List String
  admin : List AdminBinding
deriving DecidableEq, Repr

/-- A row of `authz.issuer_bindings`, as the daemon reads it. -/
structure Binding where
  issuer : String
  aliasName : String
  stores : List String
  dbRoles : List String
  clientDbRoles : List (String × String)
  pepClients : List (String × List String)
  enabled : Bool
  storeGroup : String
  jwksUrl : String
  audience : String
  audiences : List String
  admin : List AdminBinding
deriving DecidableEq, Repr

/-! ## Validation -/

/-- Why `ValidateBindings` or `DelegatedOnly` refuses a binding; rules are named by their number. -/
inductive BindingError
  | invalidStorePattern (pattern : String)
  | invalidDbRolePattern (pattern : String)
  | emptyClientDbRole (client role : String)
  | adminEmpty (rule : ℕ)
  | adminEmptyScope (rule : ℕ)
  | adminClaim (rule : ℕ) (claim : String)
  | adminEmptyClient (rule : ℕ)
  | adminScope (rule : ℕ) (scope : String)
  | adminCapability (rule : ℕ) (capability : String)
  | adminPlatformStores (rule : ℕ)
  | decideStore (rule : ℕ) (store : String)
  | decideSubjectType (rule : ℕ) (subjectType : String)
  | decideTechnicalClaim (rule : ℕ) (claim : String)
  | decideTakesNothing (rule : ℕ)
  | invalidAdminStorePattern (rule : ℕ) (pattern : String)
  | emptyPepClient
  | pepClientWithoutStores (client : String)
  | invalidPepPattern (client pattern : String)
  | pepPatternNotCovered (client pattern : String)
  | notDelegated (rule : ℕ)
  | delegatedTakesNothing (rule : ℕ)
deriving DecidableEq, Repr

/-- The claims that never identify a subject. -/
def technicalClaims : List String :=
  ["iss", "aud", "exp", "iat", "nbf", "jti", "typ", "sid", "at_hash", "c_hash", "nonce", "acr", "amr",
    "auth_time", "session_state", "scope", "email_verified", "cnf"]

/-- `storeNameRe`: a plain name of at most 63 characters. -/
def plainName (name : String) : Bool :=
  match name.toList with
  | [] => false
  | c :: cs => (c.isAlpha || c == '_') && (cs.all fun c => c.isAlphanum || c == '_') &&
      decide (cs.length ≤ 62)

/-- The error `e` if the test fails. -/
def BindingError.unless (e : BindingError) (test : Bool) : Option BindingError :=
  if test then none else some e

/-- The checks of one management rule, in the order of `ValidateBindings`. -/
def validateAdminRule (lib : GoLib) (n : ℕ) (rule : AdminBinding) : Option BindingError :=
  (BindingError.adminEmpty n).unless (!rule.empty)
  <|> (rule.scopes.findSome? fun s => (BindingError.adminEmptyScope n).unless (trimSpace s != ""))
  <|> (rule.claims.findSome? fun c =>
    (BindingError.adminClaim n c.1).unless (trimSpace c.1 != "" && !c.2.isEmpty))
  <|> (rule.clients.findSome? fun c => (BindingError.adminEmptyClient n).unless (trimSpace c != ""))
  <|> (BindingError.adminScope n rule.scope).unless (["", "issuer", "platform"].contains rule.scope)
  <|> (rule.capabilities.findSome? fun c =>
    (BindingError.adminCapability n c).unless (["manage", "test", "read"].contains c))
  <|> (BindingError.adminPlatformStores n).unless (rule.stores.isEmpty || rule.scope != "platform")
  <|> (rule.decide.bind fun d =>
    (BindingError.decideStore n d.store).unless (plainName d.store)
    <|> (BindingError.decideSubjectType n d.subjectType).unless
      (d.subjectType == "" || plainName d.subjectType)
    <|> ((d.subjectClaim.splitOn ",").findSome? fun c =>
      (BindingError.decideTechnicalClaim n (trimSpace c)).unless
        (!technicalClaims.contains (trimSpace c)))
    <|> (BindingError.decideTakesNothing n).unless
      (rule.capabilities.isEmpty && rule.stores.isEmpty && rule.scope != "platform"))
  <|> (rule.stores.findSome? fun p =>
    (BindingError.invalidAdminStorePattern n p).unless (lib.anchored p).isSome)

/-- The rules with their numbers. -/
def numbered (rules : List AdminBinding) : List (AdminBinding × ℕ) := rules.zipIdx

/-- `ValidateBindings`: the first problem of an issuer's bindings. -/
def validateBindings (lib : GoLib) (iss : Issuer) : Option BindingError :=
  (iss.stores.findSome? fun p =>
    (BindingError.invalidStorePattern p).unless (lib.anchored p).isSome)
  <|> (iss.dbRoles.findSome? fun p =>
    (BindingError.invalidDbRolePattern p).unless (lib.anchored p).isSome)
  <|> (iss.clientDbRoles.findSome? fun c => (BindingError.emptyClientDbRole c.1 c.2).unless
    (trimSpace c.1 != "" && trimSpace c.2 != ""))
  <|> ((numbered iss.admin).findSome? fun r => validateAdminRule lib r.2 r.1)
  <|> (iss.pepClients.findSome? fun c =>
    BindingError.emptyPepClient.unless (trimSpace c.1 != "")
    <|> (BindingError.pepClientWithoutStores c.1).unless (!c.2.isEmpty)
    <|> c.2.findSome? fun p =>
      (BindingError.invalidPepPattern c.1 p).unless (lib.anchored p).isSome
      <|> (BindingError.pepPatternNotCovered c.1 p).unless
        (iss.stores.isEmpty || covered lib p iss.stores))

/-- `DelegatedOnly`: the rules of a row delegate, and carry nothing of their own. -/
def delegatedOnly (rules : List AdminBinding) : Option BindingError :=
  (numbered rules).findSome? fun r =>
    (BindingError.notDelegated r.2).unless (r.1.decide.any fun d => d.store != "")
    <|> (BindingError.delegatedTakesNothing r.2).unless
      (r.1.capabilities.isEmpty && r.1.stores.isEmpty && r.1.scope != "platform")

/-! ## The merge -/

/-- `ValidAlias`: the alias in its normal form, or none if its shape is wrong. -/
def validAlias (lib : GoLib) (raw : String) : Option String :=
  let a := lib.toLower (trimSpace raw)
  match a.toList with
  | [] => some ""
  | c :: cs =>
    let head (c : Char) : Bool := c.isLower || c.isDigit
    if head c && (cs.all fun c => head c || c == '_' || c == '-') && decide (cs.length ≤ 63)
    then some a else none

/-- The aliases in use, with their issuers; the latest entry of an alias counts. -/
abbrev Aliases := List (String × String)

/-- `rowAlias`: the alias of a row, unless it is of the wrong shape or names another issuer. -/
def rowAlias (lib : GoLib) (aliases : Aliases) (iss raw : String) : Aliases × String :=
  match validAlias lib raw with
  | none => (aliases, "")
  | some a =>
    if a = "" then (aliases, "")
    else if (aliases.lookup a).any (· ≠ iss) then (aliases, "")
    else ((a, iss) :: aliases, a)

/-- `narrowing`: a row may bind an unbound issuer, and else only narrow what is bound. -/
def narrowing (lib : GoLib) (envStores rowStores : List String) : Bool :=
  envStores.isEmpty || (!rowStores.isEmpty && rowStores.all fun p => covered lib p envStores)

/-- `HostAllowed`. -/
def hostAllowed (lib : GoLib) (patterns : List String) (host : String) : Bool :=
  let host := lib.stripPort (lib.toLower (trimSpace host))
  host != "" && patterns.any fun p =>
    let p := lib.toLower (trimSpace p)
    if p = "" then false
    else if p = "*" then true
    else if p.toList.take 2 = ['*', '.'] then
      (p.toList.drop 1).isSuffixOf host.toList && decide (p.length - 1 < host.length)
    else p == host

/-- `MergeOptions`. -/
structure MergeOptions where
  restrictGroupIssuerHosts : Bool
  groupIssuerHosts : List String
deriving DecidableEq, Repr

/-- `GroupIssuerHostProblem` finds none. -/
def groupIssuerHostsAllowed (lib : GoLib) (opts : MergeOptions) (issuer jwksUrl : String) : Bool :=
  !opts.restrictGroupIssuerHosts || (!opts.groupIssuerHosts.isEmpty &&
    [lib.urlHost issuer, lib.urlHost jwksUrl].all fun h => hostAllowed lib opts.groupIssuerHosts h)

/-- `byIssuer`: the last row of an issuer. -/
def rowOf (rows : List Binding) (iss : String) : Option Binding :=
  rows.reverse.find? fun r => r.issuer = iss

/-- An entry of the environment with the bindings of a row. -/
def Issuer.withRow (e : Issuer) (row : Binding) (aliasName : String) : Issuer :=
  { e with
    aliasName := aliasName
    envStores := e.stores
    stores := row.stores
    dbRoles := row.dbRoles
    clientDbRoles := row.clientDbRoles
    pepClients := row.pepClients
    disabled := !row.enabled
    bindingSource := .db
    storeGroup := row.storeGroup
    anchorSource := .env }

/-- An entry of the environment after the merge: with the row's bindings if they narrow its own and
are valid, and with the row's alias in any case. -/
def mergeEntry (lib : GoLib) (rows : List Binding) (aliases : Aliases) (e : Issuer) :
    Aliases × Issuer :=
  let out := { e with bindingSource := .env, anchorSource := .env }
  match (if e.issuer = "" then none else rowOf rows e.issuer) with
  | none => (aliases, out)
  | some row =>
    let a := rowAlias lib aliases e.issuer row.aliasName
    let aliasName := if a.2 = "" then out.aliasName else a.2
    let cand := e.withRow row aliasName
    if narrowing lib e.stores row.stores && (validateBindings lib cand).isNone then (a.1, cand)
    else (a.1, { out with aliasName := aliasName })

/-- The loop of `MergeWith` over the environment. -/
def mergeEnv (lib : GoLib) (rows : List Binding) : Aliases → List Issuer → Aliases × List Issuer
  | aliases, [] => (aliases, [])
  | aliases, e :: es =>
    let m := mergeEntry lib rows aliases e
    let rest := mergeEnv lib rows m.1 es
    (rest.1, m.2 :: rest.2)

/-- The group issuer that a row brings. -/
def groupIssuer (row : Binding) (aliasName : String) : Issuer where
  issuer := row.issuer
  aliasName := aliasName
  audience := row.audience
  audiences := row.audiences
  storeGroup := row.storeGroup
  anchorSource := .db
  jwksUrl := row.jwksUrl
  jwksFile := ""
  stores := row.stores
  dbRoles := row.dbRoles
  clientDbRoles := row.clientDbRoles
  pepClients := row.pepClients
  disabled := !row.enabled
  bindingSource := .db
  envStores := []
  admin := row.admin

/-- A row is a valid group issuer: it names a group, and its own keys and audience. -/
def groupIssuerAdmitted (lib : GoLib) (opts : MergeOptions) (row : Binding) (aliasName : String) : Bool :=
  row.storeGroup != "" && row.jwksUrl != "" && (row.audience != "" || !row.audiences.isEmpty) &&
    "https://".toList.isPrefixOf row.jwksUrl.toList &&
    groupIssuerHostsAllowed lib opts row.issuer row.jwksUrl && (delegatedOnly row.admin).isNone &&
    (validateBindings lib (groupIssuer row aliasName)).isNone

/-- The issuers of the rows that the environment does not list, in order. -/
def unknownIssuers (env : List Issuer) (rows : List Binding) : List String :=
  ((rows.map (·.issuer)).dedup.filter fun iss =>
    iss = "" ∨ ∀ e ∈ env, e.issuer ≠ iss).insertionSort (· ≤ ·)

/-- The loop of `MergeWith` over the rows of unknown issuers. A row without a group or keys is
skipped before its alias is taken. -/
def mergeGroups (lib : GoLib) (opts : MergeOptions) (rows : List Binding) :
    Aliases → List String → List Issuer
  | _, [] => []
  | aliases, iss :: rest =>
    match rowOf rows iss with
    | none => mergeGroups lib opts rows aliases rest
    | some row =>
      if row.storeGroup = "" ∨ row.jwksUrl = "" then mergeGroups lib opts rows aliases rest
      else
        let a := rowAlias lib aliases iss row.aliasName
        let tail := mergeGroups lib opts rows a.1 rest
        if groupIssuerAdmitted lib opts row a.2 then groupIssuer row a.2 :: tail else tail

/-- `MergeWith`. -/
def mergeWith (lib : GoLib) (env : List Issuer) (rows : List Binding) (opts : MergeOptions) :
    List Issuer :=
  let taken : Aliases := (env.filterMap fun e =>
    if e.aliasName = "" then none else some (e.aliasName, e.issuer)).reverse
  let fromEnv := mergeEnv lib rows taken env
  fromEnv.2 ++ mergeGroups lib opts rows fromEnv.1 (unknownIssuers env rows)

/-! ## The rows as the engine resolves them -/

/-- A store with its group. -/
structure GroupedStore where
  name : String
  group : Option String
deriving DecidableEq, Repr

/-- The tables `authz.stores` and `authz.issuer_bindings` with the checks on their names. -/
structure IssuerTables where
  stores : List GroupedStore
  rows : List Binding
  store_plain : ∀ s ∈ stores, plainName s.name = true
  issuer_ne : ∀ b ∈ rows, b.issuer ≠ ""
  issuer_nodup : (rows.map (·.issuer)).Nodup

/-- The members of a store group, by name. -/
def IssuerTables.members (t : IssuerTables) (group : String) : List String :=
  ((t.stores.filter fun s => s.group = some group).map (·.name)).insertionSort (· ≤ ·)

/-- `list_issuer_bindings`: the stores of a row with a group are the members of the group. -/
def IssuerTables.listIssuerBindings (t : IssuerTables) : List Binding :=
  (t.rows.map fun b => if b.storeGroup = "" then b else
    { b with stores := t.members b.storeGroup }).insertionSort fun a b => a.issuer ≤ b.issuer

/-! ## The issuers in force -/

/-- `issuerSet`: the validators and the maps of the issuers in force. The newest entry of a key
counts. -/
structure IssuerSet where
  validators : List Issuer
  byIssuer : List (String × Issuer)
  dbRoles : List (String × List String)
  clientRole : List (String × List (String × String))
  stores : List (String × List String)
  pepClients : List (String × List (String × List String))
  disabled : List String
  admin : List (String × List AdminBinding)

/-- A key with a list, unless the list is empty. -/
def putNonempty {α : Type} (key : String) (values : List α) (m : List (String × List α)) :
    List (String × List α) :=
  if values.isEmpty then m else (key, values) :: m

/-- The entry of one issuer in the maps; an issuer without a name is in none of them. -/
def IssuerSet.add (set : IssuerSet) (ic : Issuer) : IssuerSet :=
  if ic.issuer = "" then { set with validators := set.validators ++ [ic] }
  else
    { validators := set.validators ++ [ic]
      byIssuer := (ic.issuer, ic) :: set.byIssuer
      dbRoles := putNonempty ic.issuer ic.dbRoles set.dbRoles
      clientRole := putNonempty ic.issuer ic.clientDbRoles set.clientRole
      stores := putNonempty ic.issuer ic.stores set.stores
      pepClients := putNonempty ic.issuer ic.pepClients set.pepClients
      disabled := if ic.disabled then ic.issuer :: set.disabled else set.disabled
      admin := putNonempty ic.issuer ic.admin set.admin }

/-- `newIssuerSet`. -/
def newIssuerSet (cfgs : List Issuer) : IssuerSet :=
  cfgs.foldl IssuerSet.add ⟨[], [], [], [], [], [], [], []⟩

/-- `pickValidator`: the entry that verifies a token with the claim `iss`. A single entry without a
name accepts every issuer. -/
def pickValidator (set : IssuerSet) (iss : String) : Option Issuer :=
  if iss ∈ set.disabled then none
  else match set.byIssuer.lookup iss with
    | some v => some v
    | none => match set.validators with
      | [v] => if v.issuer = "" then some v else none
      | _ => none

/-- `storeChecked`: an issuer with a store list reaches the stores that it matches, and one without a
list every store. -/
def storeChecked (lib : GoLib) (set : IssuerSet) (iss store : String) : Bool :=
  match set.stores.lookup iss with
  | none => true
  | some patterns => patterns.any fun p => lib.matchesPattern p store

/-! ## The maps of the issuers in force -/

theorem newIssuerSet_snoc (cfgs : List Issuer) (ic : Issuer) :
    newIssuerSet (cfgs ++ [ic]) = (newIssuerSet cfgs).add ic := by
  simp [newIssuerSet, List.foldl_append]

theorem lookup_putNonempty {α : Type} (key k : String) (values : List α)
    (m : List (String × List α)) :
    (putNonempty key values m).lookup k =
      if k = key ∧ values ≠ [] then some values else m.lookup k := by
  unfold putNonempty
  cases values with
  | nil => simp
  | cons v vs =>
    rw [if_neg (by simp), List.lookup_cons]
    by_cases hk : k = key
    · simp [hk]
    · simp [hk, beq_false_of_ne hk]

theorem newIssuerSet_validators (cfgs : List Issuer) : (newIssuerSet cfgs).validators = cfgs := by
  induction cfgs using List.reverseRecOn with
  | nil => rfl
  | append_singleton cfgs ic ih =>
    rw [newIssuerSet_snoc, IssuerSet.add]
    split <;> simp [ih]

theorem mem_disabled {cfgs : List Issuer} {iss : String} :
    iss ∈ (newIssuerSet cfgs).disabled ↔
      iss ≠ "" ∧ ∃ ic ∈ cfgs, ic.issuer = iss ∧ ic.disabled = true := by
  induction cfgs using List.reverseRecOn with
  | nil => simp [newIssuerSet]
  | append_singleton cfgs ic ih =>
    rw [newIssuerSet_snoc, IssuerSet.add]
    by_cases hname : ic.issuer = ""
    · rw [if_pos hname, ih]
      constructor
      · rintro ⟨hne, ic', hmem, h⟩
        exact ⟨hne, ic', List.mem_append_left _ hmem, h⟩
      · rintro ⟨hne, ic', hmem, heq, hdis⟩
        refine ⟨hne, ic', ?_, heq, hdis⟩
        rcases List.mem_append.mp hmem with hmem | hmem
        · exact hmem
        · rw [List.mem_singleton.mp hmem] at heq
          exact absurd (heq.symm.trans hname) hne
    · rw [if_neg hname]
      have hhead : iss ∈ (if ic.disabled = true then ic.issuer :: (newIssuerSet cfgs).disabled
          else (newIssuerSet cfgs).disabled) ↔
          (ic.issuer = iss ∧ ic.disabled = true) ∨ iss ∈ (newIssuerSet cfgs).disabled := by
        cases ic.disabled <;> simp [eq_comm]
      rw [hhead, ih]
      constructor
      · rintro (⟨rfl, hdis⟩ | ⟨hne, ic', hmem, h⟩)
        · exact ⟨hname, ic, by simp, rfl, hdis⟩
        · exact ⟨hne, ic', List.mem_append_left _ hmem, h⟩
      · rintro ⟨hne, ic', hmem, heq, hdis⟩
        rcases List.mem_append.mp hmem with hmem | hmem
        · exact .inr ⟨hne, ic', hmem, heq, hdis⟩
        · rw [List.mem_singleton.mp hmem] at heq hdis
          exact .inl ⟨heq, hdis⟩

/-- **The stores in force.** The entry of an issuer that verifies its tokens is the last one with its
name, and if it has a store list, this list is in force. -/
theorem storesInForce_last {cfgs : List Issuer} {iss : String} {m : Issuer}
    (h : (newIssuerSet cfgs).byIssuer.lookup iss = some m) :
    m ∈ cfgs ∧ m.issuer = iss ∧ iss ≠ "" ∧
      (m.stores ≠ [] → (newIssuerSet cfgs).stores.lookup iss = some m.stores) := by
  induction cfgs using List.reverseRecOn with
  | nil => cases h
  | append_singleton cfgs ic ih =>
    rw [newIssuerSet_snoc] at h ⊢
    unfold IssuerSet.add at h ⊢
    by_cases hname : ic.issuer = ""
    · rw [if_pos hname] at h ⊢
      obtain ⟨hmem, hrest⟩ := ih h
      exact ⟨List.mem_append_left _ hmem, hrest⟩
    · rw [if_neg hname] at h ⊢
      dsimp only at h ⊢
      rw [List.lookup_cons] at h
      rw [lookup_putNonempty]
      by_cases hiss : iss = ic.issuer
      · subst hiss
        rw [beq_self_eq_true] at h
        obtain rfl := Option.some.inj h
        refine ⟨by simp, rfl, hname, fun hne => ?_⟩
        rw [if_pos ⟨rfl, hne⟩]
      · rw [beq_false_of_ne hiss] at h
        obtain ⟨hmem, heq, hne, hstores⟩ := ih h
        refine ⟨List.mem_append_left _ hmem, heq, hne, fun hs => ?_⟩
        rw [if_neg (fun hc => hiss hc.1)]
        exact hstores hs

theorem mem_of_lookup_stores {cfgs : List Issuer} {iss : String} {ps : List String}
    (h : (newIssuerSet cfgs).stores.lookup iss = some ps) :
    ps ≠ [] ∧ iss ≠ "" ∧ ∃ ic ∈ cfgs, ic.issuer = iss ∧ ic.stores = ps := by
  induction cfgs using List.reverseRecOn with
  | nil => cases h
  | append_singleton cfgs ic ih =>
    rw [newIssuerSet_snoc, IssuerSet.add] at h
    by_cases hname : ic.issuer = ""
    · rw [if_pos hname] at h
      obtain ⟨hne, hiss, ic', hmem, hic⟩ := ih h
      exact ⟨hne, hiss, ic', List.mem_append_left _ hmem, hic⟩
    · rw [if_neg hname] at h
      dsimp only at h
      rw [lookup_putNonempty] at h
      split at h
      · rename_i hcond
        obtain rfl := Option.some.inj h
        exact ⟨hcond.2, hcond.1 ▸ hname, ic, by simp, hcond.1.symm, rfl⟩
      · obtain ⟨hne, hiss, ic', hmem, hic⟩ := ih h
        exact ⟨hne, hiss, ic', List.mem_append_left _ hmem, hic⟩

/-- The entry that verifies a token: the last one with its name, or a single one without a name. -/
theorem pickValidator_cases {cfgs : List Issuer} {iss : String} {m : Issuer}
    (h : pickValidator (newIssuerSet cfgs) iss = some m) :
    (iss ∉ (newIssuerSet cfgs).disabled ∧ (newIssuerSet cfgs).byIssuer.lookup iss = some m) ∨
      (cfgs = [m] ∧ m.issuer = "") := by
  unfold pickValidator at h
  split at h
  · cases h
  rename_i hdis
  cases hlookup : (newIssuerSet cfgs).byIssuer.lookup iss with
  | some v =>
    rw [hlookup] at h
    exact .inl ⟨hdis, h⟩
  | none =>
    rw [hlookup, newIssuerSet_validators] at h
    dsimp only at h
    split at h
    · split at h
      · obtain rfl := Option.some.inj h
        exact .inr ⟨rfl, ‹_›⟩
      · cases h
    · cases h

theorem lookup_byIssuer_isSome {cfgs : List Issuer} {ic : Issuer} (hmem : ic ∈ cfgs)
    (hname : ic.issuer ≠ "") : ∃ m, (newIssuerSet cfgs).byIssuer.lookup ic.issuer = some m := by
  induction cfgs using List.reverseRecOn with
  | nil => cases hmem
  | append_singleton cfgs ic' ih =>
    rw [newIssuerSet_snoc, IssuerSet.add]
    rcases List.mem_append.mp hmem with hmem | hmem
    · obtain ⟨m, hm⟩ := ih hmem
      split
      · exact ⟨m, hm⟩
      · dsimp only
        rw [List.lookup_cons]
        split
        · exact ⟨ic', rfl⟩
        · exact ⟨m, hm⟩
    · obtain rfl := List.mem_singleton.mp hmem
      rw [if_neg hname]
      exact ⟨ic, by simp⟩

end PgAuthz.Daemon
