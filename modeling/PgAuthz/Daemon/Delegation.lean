import Mathlib.Data.List.Find
import PgAuthz.Daemon.AdminApi
import PgAuthz.Daemon.StoreReach

/-!
# Delegated administration

A delegated rule hands the decision to another store: whatever a request changes or shows, the
deciding store must have granted the relation that it needs on the store, group or issuer it is
about. `Effect.needs` and `Record.needs` say which relation that is. The handlers keep within the
grants on every route but six. The routes of the issuers also serve the credential's own issuer
without asking, the refusal of an alias names the issuer that holds it, and creating a store is
granted for a store that exists.

## Main definitions

* `Effect.needs`, `Record.needs`: what the deciding store must have granted
* `Within`: an answer stays within the grants
* `Overreach`: the requests whose answer does not

## Main results

* `delegated_within_grants_iff`: an answer stays within the grants iff the request is no overreach
-/

namespace PgAuthz.Daemon

/-! ## What a request needs -/

/-- The grants to manage the issuers of a group, or those of the platform if the group is empty. -/
def manageIssuers (group : String) : List Question :=
  ⟨"can_manage_issuers", "platform", "default"⟩ ::
    if group = "" then [] else [⟨"can_manage_issuers", "group", group⟩]

/-- The groups that an issuer belongs to. -/
def Instance.groupsOf (inst : Instance) (issuer : String) : List String :=
  (inst.configs.filter fun ic => ic.issuer = issuer).map (·.storeGroup) ++
    ((inst.bindings.getD []).filter fun b => b.issuer = issuer).map (·.storeGroup)

/-- The current row of an issuer. -/
def Instance.row (inst : Instance) (issuer : String) : Option Binding :=
  bindingRow (inst.bindings.getD []) issuer

/-- The issuer is the environment's. -/
def Instance.fromEnv (inst : Instance) (issuer : String) : Bool :=
  (inst.configs.find? fun ic => ic.issuer = issuer).any fun ic => ic.anchorSource ≠ .db

/-- The grants of which one is needed for a write. A row of a group is its admins', moving a row to
another group or binding an issuer of the environment is the platform's, and the platform's right to
create stores is for new ones. -/
def Effect.needs (inst : Instance) : Effect → List Question
  | setIssuerBinding b _ =>
    match inst.row b.issuer with
    | some row => manageIssuers (if b.storeGroup = row.storeGroup then row.storeGroup else "")
    | none => manageIssuers (if inst.fromEnv b.issuer then "" else b.storeGroup)
  | deleteIssuerBinding iss _ => manageIssuers (((inst.row iss).map (·.storeGroup)).getD "")
  | upsertStore s _ => ⟨"can_manage_access", "store", s⟩ ::
      if inst.stores.contains s then [] else [⟨"can_create_store", "platform", "default"⟩]
  | deleteStore s _ | purgeStoreDecisions s _ | setRecorderActions s .. | revokeRecorderActions s _
  | setNamespaceAccess s .. | revokeNamespaceAccess s .. => [⟨"can_manage_access", "store", s⟩]
  | applyModel s .. => [⟨"can_rollout", "store", s⟩]
  | setStoreGroup .. | keepTestStore => [⟨"can_create_store", "platform", "default"⟩]
  | upsertStoreGroup .. | deleteStoreGroup .. => [⟨"admin", "platform", "default"⟩]
  | grantModelConsumer g _ | revokeModelConsumer g _ =>
    [⟨"can_manage_access", "group", g⟩, ⟨"can_manage_access", "platform", "default"⟩]
  | publishModel .. => [⟨"can_publish", "registry", "default"⟩]

/-- The grants of which one is needed to see a record. -/
def Record.needs (inst : Instance) : Record → List Question
  | issuer ic => manageIssuers ic.storeGroup
  | binding b => manageIssuers b.storeGroup
  | audit row => manageIssuers row.storeGroup
  | aliasHolder iss => manageIssuers "" ++ (inst.groupsOf iss).flatMap manageIssuers
  | store s | storeDeletions s | storeModel s | recorders s | namespaces s =>
    [⟨"can_view", "store", s⟩]
  | storePlan s _ => [⟨"can_rollout", "store", s⟩]
  | subject s .. => [⟨"can_export", "store", s⟩]
  | groups => [⟨"admin", "platform", "default"⟩]
  | modelConsumers g =>
    [⟨"can_manage_access", "group", g⟩, ⟨"can_manage_access", "platform", "default"⟩]
  | modelVersions | modelRollout _ | testReport none => [⟨"can_view", "registry", "default"⟩]
  | testReport (some s) => [⟨"can_run_tests", "store", s⟩]

/-- The deciding store granted one of the relations. -/
def Delegated.grantsOne (d : Delegated) (qs : List Question) : Bool := qs.any d.allowed

/-- Whatever the answer did and shows, the deciding store granted. -/
def Within (inst : Instance) (d : Delegated) (reply : Reply) : Prop :=
  (∀ e ∈ reply.effects, d.grantsOne (e.needs inst) = true) ∧
    ∀ rec ∈ reply.records, d.grantsOne (rec.needs inst) = true

/-! ## Requests beyond the grants -/

/-- The row narrows what the environment binds for its issuer. -/
def narrowsEnv (lib : GoLib) (b : Binding) : List Issuer → Bool
  | [] => true
  | ic :: rest =>
    if ic.issuer ≠ b.issuer then narrowsEnv lib b rest
    else if ic.anchorSource = .db ∨ b.storeGroup ≠ "" then true
    else !mergeProblem lib ic.boundStores b && narrowsEnv lib b rest

/-- The rows of the own issuer that a request for the bindings selects. -/
def ownBindings (inst : Instance) (own issuer : String) : List Binding :=
  let rows := inst.bindings.getD []
  if trimSpace issuer = "" then rows.filter fun b => b.issuer = own
  else if inst.resolveIssuer issuer = own then (bindingRow rows own).toList
  else []

/-- The request names the own issuer, or none. -/
def namesOwn (inst : Instance) (own issuer : String) : Bool :=
  let resolved := inst.resolveIssuer (trimSpace issuer)
  let named := if resolved ≠ "" then resolved else trimSpace issuer
  own ≠ "" && (named = "" || named = own)

/-- A write of the own issuer's row that the handler takes without a grant. -/
def OwnWrite (inst : Instance) (d : Delegated) (own : String) (b : Binding) : Prop :=
  let write := Effect.setIssuerBinding b ((inst.row b.issuer).map (·.storeGroup))
  b.issuer = own ∧ inst.bindings.isSome ∧ d.grantsOne (write.needs inst) = false ∧
    (∀ row ∈ inst.row own, b.storeGroup = row.storeGroup) ∧ validRow inst.lib b = true ∧
    (inst.configs.any fun ic => ic.issuer = own) = true ∧ narrowsEnv inst.lib b inst.configs = true ∧
    inst.engineRefuses write = none

/-- The requests of a delegated credential whose answer goes beyond the grants. All but the last need
the scope `pgauthz:admin`. -/
def Overreach (inst : Instance) (d : Delegated) (own : String) : AdminRequest → Prop
  | .issuers => d.scopes.contains "admin" ∧
      ∃ ic ∈ inst.configs, ic.issuer = own ∧ d.grantsOne (manageIssuers ic.storeGroup) = false
  | .issuerBindings issuer => d.scopes.contains "admin" ∧
      ∃ b ∈ ownBindings inst own issuer, d.grantsOne (manageIssuers b.storeGroup) = false
  | .issuerBindingsAudit issuer limit before => d.scopes.contains "admin" ∧
      namesOwn inst own issuer ∧ (before.all fun n => n.any (0 < ·)) ∧
      ∃ row ∈ listIssuerBindingsAudit inst.history own none
          (if limit ≤ 0 ∨ limit > 500 then 25 else limit).toNat (before.bind id),
        d.grantsOne (manageIssuers row.storeGroup) = false
  | .setIssuerBinding body => d.scopes.contains "admin" ∧
      match normalizeBinding inst body with
      | .error e => ∃ rec ∈ e.records, d.grantsOne (rec.needs inst) = false
      | .ok b => OwnWrite inst d own b
  | .deleteIssuerBinding issuer => d.scopes.contains "admin" ∧ own ≠ "" ∧
      inst.resolveIssuer issuer = own ∧ inst.bindings.isSome ∧
      d.grantsOne (manageIssuers (((inst.row own).map (·.storeGroup)).getD "")) = false ∧
      inst.engineRefuses (.deleteIssuerBinding own ((inst.row own).map (·.storeGroup))) = none
  | .upsertStore s body => (d.scopes.contains "admin" || d.scopes.contains "ci") ∧
      plainName s ∧ inst.stores.contains s ∧
      d.allowed ⟨"can_manage_access", "store", s⟩ = false ∧
      d.allowed ⟨"can_create_store", "platform", "default"⟩ ∧
      ∃ req, body = some req ∧ inst.engineRefuses (.upsertStore s req) = none
  | _ => False

/-! ## Answers that do nothing -/

variable {inst : Instance} {d : Delegated} {t : Token} {scope : AdminScope} {r : AdminRequest}

theorem within_error (status : ℕ) (message : String) :
    Within inst d (.error status message) := by
  constructor <;> simp [Reply.error]

theorem within_badRequest (message : String) : Within inst d (.badRequest message) :=
  within_error 400 message

theorem within_forbidden (message : String) : Within inst d (.forbidden message) :=
  within_error 403 message

theorem within_write {e : Effect} (h : d.grantsOne (e.needs inst) = true) :
    Within inst d (inst.write e) := by
  unfold Instance.write
  split
  · exact within_error ..
  · exact ⟨by simpa using h, by simp⟩

theorem within_record {rec : Record} (h : d.grantsOne (rec.needs inst) = true) :
    Within inst d (.records200 [rec]) :=
  ⟨by simp [Reply.records200], by simpa [Reply.records200] using h⟩

theorem within_write_iff {e : Effect} :
    Within inst d (inst.write e) ↔
      ¬(inst.engineRefuses e = none ∧ d.grantsOne (e.needs inst) = false) := by
  unfold Instance.write Within
  cases inst.engineRefuses e <;> simp [Reply.error]

/-! ## The gate of a delegated credential -/

/-- The `pgauthz:` scopes of the token cover the request. -/
def Delegated.passes (d : Delegated) (r : AdminRequest) : Bool :=
  d.coversScope (d.scopeFor r.path (neededCapability r.method r.path)) (startsWith r.path "issuer")

theorem admin_delegated (hgate : adminGate inst.toGate t r.needs = .ok scope)
    (hd : scope.decide = some d) :
    (d.passes r = true ∧ inst.admin t r = .ok scope) ∨
      (d.passes r = false ∧ ∃ message, inst.admin t r = .error (.forbidden message)) := by
  have hcan : ∀ capability, scope.can capability = true := by
    intro capability
    simp [AdminScope.can, hd]
  unfold Instance.admin requireAdmin
  simp only [hgate, hcan, hd, Bool.not_true, Bool.false_eq_true, if_false]
  cases hpass : d.passes r with
  | true =>
    refine .inl ⟨rfl, ?_⟩
    unfold Delegated.passes at hpass
    rw [if_pos hpass]
    rfl
  | false =>
    refine .inr ⟨rfl, ?_⟩
    unfold Delegated.passes at hpass
    rw [if_neg (by simp [hpass])]
    exact ⟨_, rfl⟩

theorem platformWide_delegated (hd : scope.decide = some d) (hrel : d.needs.plat.relation ≠ "") :
    scope.platformWide = d.allowed d.needs.plat := by
  simp [AdminScope.platformWide, hd, hrel]

theorem coversStore_delegated (hd : scope.decide = some d) (s : String) :
    scope.coversStore inst.lib s =
      (d.needs.storeRel != "" && d.allowed ⟨d.needs.storeRel, "store", s⟩) := by
  simp [AdminScope.coversStore, hd]

/-- **Handlers on a store.** What follows the check of the scope runs only if the deciding store
granted the relation of the request on the store, or the request creates it. -/
theorem within_onStore {s : String} {handler : Reply}
    (hgate : adminGate inst.toGate t r.needs = .ok scope) (hd : scope.decide = some d)
    (h : plainName s = true → d.allowed ⟨r.needs.storeRel, "store", s⟩ = true →
      Within inst d handler)
    (hput : creatingStore scope r s = false) : Within inst d (onStore inst t r s handler) := by
  unfold onStore requireStoreScope
  rcases admin_delegated hgate hd with ⟨-, hadmin⟩ | ⟨-, message, hadmin⟩
  · simp only [hadmin]
    by_cases hs : plainName s = true
    · cases hcov : scope.coversStore inst.lib s with
      | false =>
        simp only [hs, hput, Bool.not_true, Bool.false_eq_true, Bool.not_false, Bool.and_true,
          if_false, if_true]
        exact within_forbidden _
      | true =>
        simp only [hs, Bool.not_true, Bool.false_and, Bool.false_eq_true, if_false]
        rw [coversStore_delegated hd, (adminGate_delegated hgate hd).2, Bool.and_eq_true] at hcov
        exact h hs hcov.2
    · simp only [Bool.not_eq_true] at hs
      simp only [hs, Bool.not_false, if_true]
      exact within_badRequest _
  · simp only [hadmin]
    exact within_forbidden _

/-- **Handlers of the platform.** -/
theorem within_onPlatform {handler : Reply} (hgate : adminGate inst.toGate t r.needs = .ok scope)
    (hd : scope.decide = some d) (h : d.allowed r.needs.plat = true → Within inst d handler) :
    Within inst d (onPlatform inst t r handler) := by
  unfold onPlatform requirePlatform
  rcases admin_delegated hgate hd with ⟨-, hadmin⟩ | ⟨-, message, hadmin⟩
  · simp only [hadmin]
    cases hplat : scope.platformWide with
    | false =>
      simp only [Bool.false_eq_true, if_false]
      exact within_forbidden _
    | true =>
      simp only [if_true]
      simp only [AdminScope.platformWide, hd, Bool.and_eq_true] at hplat
      rw [(adminGate_delegated hgate hd).2] at hplat
      exact h hplat.2
  · simp only [hadmin]
    exact within_forbidden _

/-- **Handlers on a group.** -/
theorem within_onGroup {group : String} {handler : Reply}
    (hgate : adminGate inst.toGate t r.needs = .ok scope) (hd : scope.decide = some d)
    (h : d.grantsOne [⟨"can_manage_access", "group", group⟩,
      ⟨"can_manage_access", "platform", "default"⟩] = true → Within inst d handler) :
    Within inst d (onGroup inst t r group handler) := by
  unfold onGroup requireGroupOwner
  rcases admin_delegated hgate hd with ⟨-, hadmin⟩ | ⟨-, message, hadmin⟩
  · simp only [hadmin, hd]
    split
    · rename_i heq
      split at heq
      · obtain rfl := Except.error.inj heq
        exact within_badRequest _
      · split at heq
        · cases heq
        · obtain rfl := Except.error.inj heq
          exact within_forbidden _
    · rename_i heq
      split at heq
      · cases heq
      · split at heq
        · rename_i hallowed
          exact h (by simpa [Delegated.grantsOne] using hallowed)
        · cases heq
  · simp only [hadmin]
    exact within_forbidden _

/-! ## The routes that keep within the grants -/

/-- A route below a store needs the relation that the rest of its path says. -/
theorem within_storeRoute {s : String} {handler : Reply} (rest : String)
    (hgate : adminGate inst.toGate t r.needs = .ok scope) (hd : scope.decide = some d)
    (hpath : r.path = "stores/" ++ s ++ rest) (hrest : rest.toList.head?.all (· = '/'))
    (hput : r.method = .put → rest ≠ "")
    (h : d.grantsOne [⟨storeRelation r.method rest, "store", s⟩] = true → Within inst d handler) :
    Within inst d (onStore inst t r s handler) := by
  refine within_onStore hgate hd (fun hs hallowed => h ?_) ?_
  · rw [AdminRequest.needs, hpath, delegatedNeeds_store r.method hs hrest] at hallowed
    simpa [Delegated.grantsOne] using hallowed
  · -- only a put on the store itself creates one
    unfold creatingStore
    by_cases hm : r.method = .put
    · have hne : r.path ≠ "stores/" ++ s := by
        rw [hpath]
        intro heq
        have hlen := congrArg String.length heq
        simp only [String.length_append] at hlen
        exact hput hm (String.length_eq_zero_iff.mp (by omega))
      simp [hne]
    · simp [hm]

/-- The relation of a route below a store that is neither its model's nor a data subject's. -/
theorem storeRelation_below {rest : String} {c : Char} {cs : List Char} (m : Method)
    (hrest : rest.toList = '/' :: c :: cs) (hsub : c ≠ 's') (hmodel : c ≠ 'm') :
    storeRelation m rest = if m = .get then "can_view" else "can_manage_access" := by
  have hstarts : startsWith rest "/subjects" = false := by
    unfold startsWith
    have hlit : "/subjects".toList = '/' :: 's' :: "ubjects".toList := rfl
    rw [hrest, hlit, List.isPrefixOf_cons_cons, List.isPrefixOf_cons_cons, beq_false_of_ne (Ne.symm hsub),
      Bool.false_and, Bool.and_false]
  have hne : rest ≠ "/model" := by
    intro heq
    rw [heq] at hrest
    have hc : 'm' = c := by simpa using congrArg (fun l => l.tail.head?) hrest
    exact hmodel hc.symm
  unfold storeRelation
  rw [if_neg (by simp [hstarts]), if_neg hne]

/-- A route below a store, with a path that starts with a literal. -/
theorem within_below {s : String} {handler : Reply} {c : Char} {cs : List Char} (lit tail : String)
    (hgate : adminGate inst.toGate t r.needs = .ok scope) (hd : scope.decide = some d)
    (hpath : r.path = "stores/" ++ s ++ (lit ++ tail)) (hlit : lit.toList = '/' :: c :: cs)
    (hsub : c ≠ 's') (hmodel : c ≠ 'm')
    (h : d.grantsOne [⟨if r.method = .get then "can_view" else "can_manage_access", "store", s⟩] = true →
      Within inst d handler) : Within inst d (onStore inst t r s handler) := by
  have hl : (lit ++ tail).toList = '/' :: c :: (cs ++ tail.toList) := by simp [hlit]
  refine within_storeRoute (lit ++ tail) hgate hd hpath ?_ ?_ ?_
  · rw [hl]
    rfl
  · intro _ hnil
    rw [hnil] at hl
    cases hl
  · rw [storeRelation_below r.method hl hsub hmodel]
    exact h

theorem grantsOne_single {q : Question} (h : d.allowed q = true) : d.grantsOne [q] = true := by
  simp [Delegated.grantsOne, h]

theorem within_subjectRoute {s tail : String} {handler : Reply}
    (hgate : adminGate inst.toGate t r.needs = .ok scope) (hd : scope.decide = some d)
    (hpath : r.path = "stores/" ++ s ++ ("/subjects/" ++ tail)) (hm : r.method = .get)
    (h : d.grantsOne [⟨"can_export", "store", s⟩] = true → Within inst d handler) :
    Within inst d (onStore inst t r s handler) := by
  have hl : ("/subjects/" ++ tail).toList = "/subjects".toList ++ ('/' :: tail.toList) := by
    rw [String.toList_append]
    rfl
  have hrel : storeRelation r.method ("/subjects/" ++ tail) = "can_export" := by
    unfold storeRelation startsWith
    rw [hl, if_pos (by simp)]
  refine within_storeRoute ("/subjects/" ++ tail) hgate hd hpath ?_ ?_ ?_
  · rw [hl]
    rfl
  · intro hput
    rw [hm] at hput
    cases hput
  · rw [hrel]
    exact h

theorem within_groupsRoute {handler : Reply} (tail : String)
    (hgate : adminGate inst.toGate t r.needs = .ok scope) (hd : scope.decide = some d)
    (hpath : r.path = "groups" ++ tail)
    (h : d.grantsOne [⟨"admin", "platform", "default"⟩] = true → Within inst d handler) :
    Within inst d (onPlatform inst t r handler) := by
  refine within_onPlatform hgate hd fun hallowed => h (grantsOne_single ?_)
  have hl : r.path.toList = "groups".toList ++ tail.toList := by rw [hpath, String.toList_append]
  have hstart : ∀ start : String, "groups".toList.head? ≠ start.toList.head? → start ≠ "" →
      startsWith r.path start = false := by
    intro start hne hnil
    unfold startsWith
    rw [hl]
    cases hs : start.toList with
    | nil => exact absurd (String.toList_eq_nil_iff.mp hs) hnil
    | cons c cs =>
      have hc : 'g' ≠ c := by
        intro hc
        rw [hs] at hne
        exact hne (congrArg some hc)
      have hg : "groups".toList = 'g' :: "roups".toList := rfl
      rw [hg, List.cons_append, List.isPrefixOf_cons_cons, beq_false_of_ne (Ne.symm hc), Bool.false_and]
  have hne : ∀ lit : String, startsWith lit "groups" = false → r.path ≠ lit := by
    intro lit hlit heq
    rw [← heq, hpath, startsWith_append] at hlit
    cases hlit
  unfold AdminRequest.needs delegatedNeeds at hallowed
  rw [hstart "issuer" (by decide) (by decide), hstart "models" (by decide) (by decide),
    hstart "stores/" (by decide) (by decide)] at hallowed
  simpa [hne "models/test" (by decide), hne "stores" (by decide)] using hallowed

theorem within_registryRoute {handler : Reply} (tail : String)
    (hgate : adminGate inst.toGate t r.needs = .ok scope) (hd : scope.decide = some d)
    (hpath : r.path = "models" ++ tail) (htest : r.path ≠ "models/test")
    (h : d.grantsOne [⟨if r.method = .get then "can_view" else "can_publish", "registry", "default"⟩] =
      true → Within inst d handler) :
    Within inst d (onPlatform inst t r handler) := by
  refine within_onPlatform hgate hd fun hallowed => h (grantsOne_single ?_)
  have hissuer : startsWith r.path "issuer" = false := by
    unfold startsWith
    rw [hpath, String.toList_append]
    rfl
  have hmodels : startsWith r.path "models" = true := by
    rw [hpath]
    exact startsWith_append _ _
  unfold AdminRequest.needs delegatedNeeds at hallowed
  rwa [if_neg (by simp [hissuer]), if_neg htest, if_pos hmodels] at hallowed

/-! ## The routes of the issuers -/

/-- A request on the issuers: it needs the platform's grant to manage them, and `pgauthz:admin`. -/
structure OnIssuers (r : AdminRequest) : Prop where
  needs : r.needs = ⟨"", askedIssuers⟩
  starts : startsWith r.path "issuer" = true

theorem OnIssuers.of_path (path : String) (hpath : r.path = path)
    (hstarts : startsWith path "issuer" = true) : OnIssuers r := by
  refine ⟨?_, hpath ▸ hstarts⟩
  unfold AdminRequest.needs delegatedNeeds
  rw [hpath, if_pos hstarts]
  rfl

theorem OnIssuers.passes (h : OnIssuers r) : d.passes r = d.scopes.contains "admin" := by
  have hmanage : (("admin" == "test" || "admin" == "read") : Bool) = false := by decide
  simp only [Delegated.passes, Delegated.scopeFor, Delegated.coversScope, h.starts, if_true, hmanage,
    Bool.not_true, Bool.and_false, Bool.or_false, Bool.or_self]

theorem OnIssuers.platformWide (h : OnIssuers r) (hgate : adminGate inst.toGate t r.needs = .ok scope)
    (hd : scope.decide = some d) : scope.platformWide = d.allowed askedIssuers := by
  have hneeds := (adminGate_delegated hgate hd).2
  rw [h.needs] at hneeds
  rw [platformWide_delegated hd (by rw [hneeds]; decide), hneeds]

theorem OnIssuers.covers (h : OnIssuers r) (hgate : adminGate inst.toGate t r.needs = .ok scope)
    (hd : scope.decide = some d) (issuer : String) :
    scope.covers issuer = (d.allowed askedIssuers || issuer == t.issuer) := by
  rw [AdminScope.covers, h.platformWide hgate hd, (adminGate_delegated hgate hd).1]

theorem grantsOne_manageIssuers (group : String) :
    d.grantsOne (manageIssuers group) = (d.allowed askedIssuers ||
      (group != "" && d.allowed ⟨"can_manage_issuers", "group", group⟩)) := by
  unfold Delegated.grantsOne manageIssuers askedIssuers
  by_cases hg : group = ""
  · simp [hg]
  · simp [hg, bne_iff_ne.mpr hg]

theorem grantsOne_of_platform (group : String) (h : d.allowed askedIssuers = true) :
    d.grantsOne (manageIssuers group) = true := by
  rw [grantsOne_manageIssuers, h, Bool.true_or]

/-- Who administers the issuers of a group was granted it. -/
theorem grantsOne_of_managesGroup {group : String} (hd : scope.decide = some d)
    (h : (group != "" && scopeManagesGroup scope group) = true) :
    d.grantsOne (manageIssuers group) = true := by
  rw [Bool.and_eq_true] at h
  obtain ⟨hne, hmanages⟩ := h
  unfold scopeManagesGroup at hmanages
  simp only [hd, Bool.and_eq_true, Bool.or_eq_true] at hmanages
  rw [grantsOne_manageIssuers, hne, Bool.true_and, Bool.or_eq_true]
  exact hmanages.2.symm

theorem within_records {records : List Record} :
    Within inst d (.records200 records) ↔
      ¬∃ rec ∈ records, d.grantsOne (rec.needs inst) = false := by
  simp [Within, Reply.records200]

/-- **The issuers in force.** -/
theorem within_issuers (hgate : adminGate inst.toGate t (AdminRequest.needs .issuers) = .ok scope)
    (hd : scope.decide = some d) :
    Within inst d (adminIssuers inst t) ↔ ¬Overreach inst d t.issuer .issuers := by
  have hon : OnIssuers .issuers := .of_path "issuers" rfl (by decide)
  unfold adminIssuers Overreach
  rcases admin_delegated hgate hd with ⟨hpass, hadmin⟩ | ⟨hpass, message, hadmin⟩
  · rw [hon.passes] at hpass
    simp only [hadmin, hpass, true_and]
    rw [within_records, not_iff_not]
    unfold visibleIssuers
    rw [hon.platformWide hgate hd, (adminGate_delegated hgate hd).1]
    cases hplat : d.allowed askedIssuers with
    | true =>
      -- the platform's issuer admins see every issuer, and may
      simp only [if_true, List.mem_map]
      constructor
      · rintro ⟨_, ⟨ic, -, rfl⟩, hnot⟩
        rw [Record.needs, grantsOne_of_platform _ hplat] at hnot
        cases hnot
      · rintro ⟨ic, -, -, hnot⟩
        rw [grantsOne_of_platform _ hplat] at hnot
        cases hnot
    | false =>
      simp only [Bool.false_eq_true, if_false, List.mem_map, List.mem_filter]
      constructor
      · rintro ⟨_, ⟨ic, ⟨hmem, hvis⟩, rfl⟩, hnot⟩
        rw [Bool.or_eq_true] at hvis
        rcases hvis with hown | hgroup
        · exact ⟨ic, hmem, by simpa using hown, hnot⟩
        · rw [Record.needs, grantsOne_of_managesGroup hd hgroup] at hnot
          cases hnot
      · rintro ⟨ic, hmem, hown, hnot⟩
        exact ⟨.issuer ic, ⟨ic, ⟨hmem, by simp [hown]⟩, rfl⟩, hnot⟩
  · rw [hon.passes] at hpass
    simp only [hadmin, hpass]
    simp [within_forbidden]

/-- A row is visible to a credential because it is its own issuer's, or because it was granted. -/
theorem OnIssuers.visible (h : OnIssuers r) (hgate : adminGate inst.toGate t r.needs = .ok scope)
    (hd : scope.decide = some d) {b : Binding}
    (hvis : (scope.covers b.issuer ||
      (b.storeGroup != "" && scopeManagesGroup scope b.storeGroup)) = true) :
    b.issuer = t.issuer ∨ d.grantsOne (manageIssuers b.storeGroup) = true := by
  rw [Bool.or_eq_true, h.covers hgate hd, Bool.or_eq_true, beq_iff_eq] at hvis
  rcases hvis with (hplat | hown) | hgroup
  · exact .inr (grantsOne_of_platform _ hplat)
  · exact .inl hown
  · exact .inr (grantsOne_of_managesGroup hd hgroup)

theorem OnIssuers.own_visible (h : OnIssuers r)
    (hgate : adminGate inst.toGate t r.needs = .ok scope) (hd : scope.decide = some d)
    {b : Binding} (hown : b.issuer = t.issuer) :
    (scope.covers b.issuer || (b.storeGroup != "" && scopeManagesGroup scope b.storeGroup)) = true := by
  rw [h.covers hgate hd, hown, beq_self_eq_true, Bool.or_true, Bool.true_or]

/-- The first visible row of the own issuer is its row. -/
theorem OnIssuers.find_own (h : OnIssuers r) (hgate : adminGate inst.toGate t r.needs = .ok scope)
    (hd : scope.decide = some d) (rows : List Binding) :
    (visibleBindings scope rows).find? (fun b => b.issuer = t.issuer) = bindingRow rows t.issuer := by
  unfold visibleBindings bindingRow
  rw [List.find?_filter]
  apply List.find?_congr
  intro b _
  by_cases hown : b.issuer = t.issuer
  · simp [hown, h.covers hgate hd]
  · simp [hown]

/-- **The rows of the bindings.** -/
theorem within_issuerBindings {issuer : String}
    (hgate : adminGate inst.toGate t (AdminRequest.needs (.issuerBindings issuer)) = .ok scope)
    (hd : scope.decide = some d) :
    Within inst d (adminIssuerBindings inst t issuer) ↔
      ¬Overreach inst d t.issuer (.issuerBindings issuer) := by
  have hon : OnIssuers (.issuerBindings issuer) :=
    .of_path "issuer-bindings" rfl (by decide)
  unfold adminIssuerBindings Overreach ownBindings
  rcases admin_delegated hgate hd with ⟨hpass, hadmin⟩ | ⟨hpass, message, hadmin⟩
  · rw [hon.passes] at hpass
    simp only [hadmin, hpass, true_and]
    cases inst.bindings with
    | none => simp [within_error, bindingRow]
    | some rows =>
      simp only [Option.getD_some]
      by_cases hblank : trimSpace issuer = ""
      · -- every row within the scope
        rw [if_pos hblank, if_pos hblank, within_records, not_iff_not]
        constructor
        · rintro ⟨_, hmem, hnot⟩
          obtain ⟨b, hb, rfl⟩ := List.mem_map.mp hmem
          obtain ⟨hrow, hvis⟩ := List.mem_filter.mp hb
          rcases hon.visible hgate hd hvis with hown | hgranted
          · exact ⟨b, List.mem_filter.mpr ⟨hrow, by simpa using hown⟩, hnot⟩
          · rw [Record.needs, hgranted] at hnot
            cases hnot
        · rintro ⟨b, hb, hnot⟩
          obtain ⟨hrow, hown⟩ := List.mem_filter.mp hb
          have hvis := hon.own_visible hgate hd (by simpa using hown)
          exact ⟨.binding b, List.mem_map_of_mem (List.mem_filter.mpr ⟨hrow, hvis⟩), hnot⟩
      · rw [if_neg hblank, if_neg hblank]
        by_cases hown : inst.resolveIssuer issuer = t.issuer
        · rw [if_pos hown, hown, hon.find_own hgate hd]
          cases bindingRow rows t.issuer with
          | none => simp [within_error]
          | some b => simp [within_records, Record.needs]
        · -- the row of another issuer was granted
          rw [if_neg hown]
          simp only [List.not_mem_nil, false_and, exists_false, not_false_eq_true, iff_true]
          cases hfind : (visibleBindings scope rows).find? fun b =>
              b.issuer = inst.resolveIssuer issuer with
          | none => exact within_error ..
          | some b =>
            have hmem := List.mem_of_find?_eq_some hfind
            have hiss : b.issuer = inst.resolveIssuer issuer := by
              simpa using List.find?_some hfind
            refine within_record ?_
            rcases hon.visible hgate hd (List.mem_filter.mp hmem).2 with h | h
            · exact absurd (hiss.symm.trans h) hown
            · exact h
  · rw [hon.passes] at hpass
    simp only [hadmin, hpass]
    simp [within_forbidden]

/-- The rows of a history page in groups that the credential manages were granted. -/
theorem within_groupsPage {issuer : String} {groups : List String} {page : ℕ} {before : Option ℤ}
    (hd : scope.decide = some d)
    (hgroups : ∀ g ∈ groups, g ≠ "" ∧ scopeManagesGroup scope g = true) :
    Within inst d (.records200
      ((listIssuerBindingsAudit inst.history issuer (some groups) page before).map .audit)) := by
  rw [within_records]
  rintro ⟨_, hmem, hnot⟩
  obtain ⟨row, hrow, rfl⟩ := List.mem_map.mp hmem
  have hsel := (List.mem_filter.mp (List.mem_of_mem_take hrow)).2
  simp only [Option.all_some, decide_eq_true_eq, List.contains_iff_mem] at hsel
  obtain ⟨hne, hmanages⟩ := hgroups _ hsel.2.1
  rw [Record.needs, grantsOne_of_managesGroup hd (by simp [hne, hmanages])] at hnot
  cases hnot

theorem auditSelection_own {named : String} (hplat : scope.platformWide = false)
    (hne : scope.issuer ≠ "") (h : named = "" ∨ named = scope.issuer) :
    auditSelection inst scope named = .ok (scope.issuer, none) := by
  unfold auditSelection
  rw [if_neg (by simp [hplat])]
  rcases h with rfl | rfl
  · rw [if_pos rfl, if_pos hne]
  · rw [if_neg hne, if_neg (by simp)]

theorem auditSelection_other {named : String} (hplat : scope.platformWide = false)
    (h : ¬(scope.issuer ≠ "" ∧ (named = "" ∨ named = scope.issuer))) :
    (∃ message, auditSelection inst scope named = .error (.forbidden message)) ∨
      ∃ groups, auditSelection inst scope named = .ok (named, some groups) ∧
        ∀ g ∈ groups, g ≠ "" ∧ scopeManagesGroup scope g = true := by
  unfold auditSelection
  rw [if_neg (by simp [hplat])]
  by_cases hnil : named = ""
  · have hiss : scope.issuer = "" := by
      by_contra hne
      exact h ⟨hne, .inl hnil⟩
    rw [if_pos hnil, if_neg (by simp [hiss])]
    exact .inl ⟨_, rfl⟩
  · have hother : named ≠ scope.issuer := by
      intro heq
      exact h ⟨heq ▸ hnil, .inr heq⟩
    rw [if_neg hnil, if_pos hother]
    dsimp only
    split
    · exact .inl ⟨_, rfl⟩
    · refine .inr ⟨_, rfl, fun g hg => ?_⟩
      obtain ⟨hg, hmanages⟩ := List.mem_filter.mp hg
      obtain ⟨row, hrow, rfl⟩ := List.mem_map.mp (List.mem_dedup.mp hg)
      exact ⟨(of_decide_eq_true (List.mem_filter.mp hrow).2).2, hmanages⟩

/-- **The history of the bindings.** -/
theorem within_issuerBindingsAudit {issuer : String} {limit : ℤ} {before : Option (Option ℤ)}
    (hgate : adminGate inst.toGate t (AdminRequest.needs (.issuerBindingsAudit issuer limit before)) =
      .ok scope) (hd : scope.decide = some d) :
    Within inst d (adminIssuerBindingsAudit inst t issuer limit before) ↔
      ¬Overreach inst d t.issuer (.issuerBindingsAudit issuer limit before) := by
  have hon : OnIssuers (.issuerBindingsAudit issuer limit before) :=
    .of_path "issuer-bindings/audit" rfl (by decide)
  have hscope := (adminGate_delegated hgate hd).1
  unfold adminIssuerBindingsAudit Overreach namesOwn
  rcases admin_delegated hgate hd with ⟨hpass, hadmin⟩ | ⟨hpass, message, hadmin⟩
  · rw [hon.passes] at hpass
    simp only [hadmin, hpass, true_and]
    generalize hnamed : (if inst.resolveIssuer (trimSpace issuer) ≠ "" then
      inst.resolveIssuer (trimSpace issuer) else trimSpace issuer) = named
    generalize (if limit ≤ 0 ∨ limit > 500 then 25 else limit).toNat = page
    have hbefore : (before.all fun n => n.any (0 < ·)) =
        !(before.any fun n => n.all (· ≤ 0)) := by
      rcases before with _ | _ | n
      · rfl
      · rfl
      · show decide (0 < n) = !decide (n ≤ 0)
        rw [← decide_not]
        simp only [Int.not_le]
    have hwide := hon.platformWide hgate hd
    rw [hbefore]
    cases hplat : d.allowed askedIssuers with
    | true =>
      -- the platform's issuer admins read every row, and may
      have hno : ∀ row : AuditRow, d.grantsOne (manageIssuers row.storeGroup) = true :=
        fun row => grantsOne_of_platform _ hplat
      have hall : auditSelection inst scope named = .ok (named, none) := by
        unfold auditSelection
        rw [if_pos (hwide.trans hplat)]
      simp only [hall, hno, Bool.true_eq_false, and_false, exists_false, not_false_eq_true, iff_true]
      split
      · exact within_badRequest _
      · rw [within_records]
        rintro ⟨_, hmem, hnot⟩
        obtain ⟨row, -, rfl⟩ := List.mem_map.mp hmem
        rw [Record.needs, hno] at hnot
        cases hnot
    | false =>
      have hnarrow := hwide.trans hplat
      by_cases hown : t.issuer ≠ "" ∧ (named = "" ∨ named = t.issuer)
      · -- the whole history of the own issuer, whatever the groups of its rows
        have hnames : (decide (t.issuer ≠ "") && (decide (named = "") || decide (named = t.issuer))) =
            true := by simpa using hown
        rw [auditSelection_own hnarrow (hscope ▸ hown.1) (hscope ▸ hown.2), hnames, hscope]
        simp only [true_and]
        cases before.any fun n => n.all (· ≤ 0) with
        | true => simp [within_badRequest]
        | false =>
          simp only [Bool.false_eq_true, if_false, Bool.not_false, true_and]
          rw [within_records, not_iff_not]
          constructor
          · rintro ⟨_, hmem, hnot⟩
            obtain ⟨row, hrow, rfl⟩ := List.mem_map.mp hmem
            exact ⟨row, hrow, hnot⟩
          · rintro ⟨row, hrow, hnot⟩
            exact ⟨.audit row, List.mem_map_of_mem hrow, hnot⟩
      · have hnames : (decide (t.issuer ≠ "") && (decide (named = "") || decide (named = t.issuer))) =
            false := by
          rw [Bool.eq_false_iff]
          intro h
          exact hown (by simpa using h)
        rw [hnames]
        simp only [Bool.false_eq_true, false_and, not_false_eq_true, iff_true]
        have hother : ¬(scope.issuer ≠ "" ∧ (named = "" ∨ named = scope.issuer)) := hscope ▸ hown
        rcases auditSelection_other hnarrow hother with ⟨message, hsel⟩ | ⟨groups, hsel, hgroups⟩
        · rw [hsel]
          exact within_forbidden _
        · simp only [hsel]
          split
          · exact within_badRequest _
          · exact within_groupsPage hd hgroups
  · rw [hon.passes] at hpass
    simp only [hadmin, hpass]
    simp [within_forbidden]

/-! ## Writing a binding -/

theorem normalizeBinding_error {body : Option Binding} {e : Reply}
    (h : normalizeBinding inst body = .error e) : e.effects = [] := by
  unfold normalizeBinding at h
  split at h
  · obtain rfl := Except.error.inj h
    rfl
  · dsimp only at h
    split at h
    · obtain rfl := Except.error.inj h
      rfl
    · split at h
      · obtain rfl := Except.error.inj h
        rfl
      · split at h
        · obtain rfl := Except.error.inj h
          rfl
        · split at h
          · obtain rfl := Except.error.inj h
            rfl
          · cases h

/-- For the own issuer the loop over the issuers in force asks for no grant. -/
theorem trustedIssuer_own {b : Binding} (isNew : Bool) (hcov : scope.covers b.issuer = true)
    (cfgs : List Issuer) :
    trustedIssuer inst scope isNew b cfgs = if narrowsEnv inst.lib b cfgs then
      .ok (cfgs.any fun ic => ic.issuer = b.issuer) else .error (.badRequest "binding ignored") := by
  induction cfgs with
  | nil => rfl
  | cons ic rest ih =>
    unfold trustedIssuer narrowsEnv
    by_cases hiss : ic.issuer = b.issuer
    · have hany : ((ic :: rest).any fun ic => ic.issuer = b.issuer) = true := by simp [hiss]
      simp only [ne_eq, hiss, not_true_eq_false, if_false, hany]
      by_cases hdb : ic.anchorSource = .db
      · simp only [hdb, if_true, true_or]
      · simp only [hdb, if_false, hcov, Bool.not_true, Bool.and_false, Bool.false_eq_true, false_or]
        by_cases hgroup : b.storeGroup = ""
        · simp only [hgroup, not_true_eq_false, if_false, ih]
          cases mergeProblem inst.lib ic.boundStores b
          · cases narrowsEnv inst.lib b rest <;> rfl
          · rfl
        · simp only [hgroup, not_false_eq_true, if_true]
    · have hany : ((ic :: rest).any fun ic => ic.issuer = b.issuer) =
          rest.any fun ic => ic.issuer = b.issuer := by simp [hiss]
      simp only [ne_eq, hiss, not_false_eq_true, if_true, hany, ih]

theorem trustedIssuer_error {b : Binding} {isNew : Bool} {cfgs : List Issuer} {e : Reply}
    (h : trustedIssuer inst scope isNew b cfgs = .error e) :
    ∃ status message, e = .error status message := by
  induction cfgs with
  | nil => cases h
  | cons ic rest ih =>
    unfold trustedIssuer at h
    split at h
    · exact ih h
    split at h
    · cases h
    split at h
    · exact ⟨_, _, (Except.error.inj h).symm⟩
    split at h
    · cases h
    split at h
    · exact ⟨_, _, (Except.error.inj h).symm⟩
    · cases hrest : trustedIssuer inst scope isNew b rest with
      | error e' =>
        rw [hrest] at h
        obtain rfl := Except.error.inj h
        exact ih hrest
      | ok _ =>
        rw [hrest] at h
        cases h

/-- A group's admins cannot claim an issuer of the environment. -/
theorem trustedIssuer_not_fromEnv {b : Binding} {cfgs : List Issuer} {trusted : Bool}
    (h : trustedIssuer inst scope true b cfgs = .ok trusted) (hgroup : b.storeGroup ≠ "")
    (hplat : scope.platformWide = false) (hcov : scope.covers b.issuer = false) :
    ((cfgs.find? fun ic => ic.issuer = b.issuer).any fun ic => ic.anchorSource ≠ .db) = false := by
  induction cfgs with
  | nil => rfl
  | cons ic rest ih =>
    unfold trustedIssuer at h
    by_cases hiss : ic.issuer = b.issuer
    · rw [if_neg (by simp [hiss])] at h
      by_cases hdb : ic.anchorSource = .db
      · simp [hiss, hdb]
      · rw [if_neg hdb, if_pos (by simp [hgroup, hplat, hcov])] at h
        cases h
    · rw [if_pos hiss] at h
      simpa [hiss] using ih h

theorem ownershipRefusal_error {cur : Option Binding} {b : Binding} {e : Reply}
    (h : ownershipRefusal scope cur b = some e) : ∃ status message, e = .error status message := by
  unfold ownershipRefusal at h
  dsimp only at h
  split at h
  all_goals
    split at h
    · exact ⟨_, _, (Option.some.inj h).symm⟩
  · split at h
    · exact ⟨_, _, (Option.some.inj h).symm⟩
    · cases h
  · cases h

theorem untrustedRefusal_error {b : Binding} {e : Reply}
    (h : untrustedRefusal inst scope b = some e) : ∃ status message, e = .error status message := by
  unfold untrustedRefusal at h
  split at h
  · exact ⟨_, _, (Option.some.inj h).symm⟩
  split at h
  · exact ⟨_, _, (Option.some.inj h).symm⟩
  split at h
  · exact ⟨_, _, (Option.some.inj h).symm⟩
  · cases h

/-- **Writes of a binding.** The handler answers with an error, or hands the write to the engine
after every check passed. -/
theorem writeBinding_cases (rows : List Binding) (b : Binding) :
    (∃ status message, writeBinding inst scope rows b = .error status message) ∨
      ∃ trusted, ownershipRefusal scope (bindingRow rows b.issuer) b = none ∧
        validRow inst.lib b = true ∧
        trustedIssuer inst scope (bindingRow rows b.issuer).isNone b inst.configs = .ok trusted ∧
        (trusted = false → untrustedRefusal inst scope b = none) ∧
        writeBinding inst scope rows b =
          inst.write (.setIssuerBinding b ((bindingRow rows b.issuer).map (·.storeGroup))) := by
  unfold writeBinding
  dsimp only
  cases howner : ownershipRefusal scope (bindingRow rows b.issuer) b with
  | some e => exact .inl (ownershipRefusal_error howner)
  | none =>
    cases hvalid : validRow inst.lib b with
    | false => exact .inl ⟨_, _, rfl⟩
    | true =>
      simp only [Bool.not_true, Bool.false_eq_true, if_false]
      cases htrust : trustedIssuer inst scope (bindingRow rows b.issuer).isNone b inst.configs with
      | error e => exact .inl (trustedIssuer_error htrust)
      | ok trusted =>
        cases trusted with
        | true => exact .inr ⟨true, trivial, trivial, rfl, nofun, rfl⟩
        | false =>
          simp only [Bool.false_eq_true, if_false]
          cases huntrusted : untrustedRefusal inst scope b with
          | some e => exact .inl (untrustedRefusal_error huntrusted)
          | none => exact .inr ⟨false, trivial, trivial, rfl, fun _ => rfl, rfl⟩

/-- The needs of a write of a binding are those of some owner's issuers. -/
theorem setIssuerBinding_needs (inst : Instance) (b : Binding) (expect : Option String) :
    ∃ group, (Effect.setIssuerBinding b expect).needs inst = manageIssuers group := by
  unfold Effect.needs
  dsimp only
  cases inst.row b.issuer with
  | some row => exact ⟨_, rfl⟩
  | none => exact ⟨_, rfl⟩

/-- A write of another issuer's row was granted. -/
theorem OnIssuers.granted_other (h : OnIssuers r) (hgate : adminGate inst.toGate t r.needs = .ok scope)
    (hd : scope.decide = some d) {rows : List Binding} (hrows : inst.bindings = some rows) {b : Binding}
    (hother : b.issuer ≠ t.issuer)
    (howner : ownershipRefusal scope (bindingRow rows b.issuer) b = none) {trusted : Bool}
    (htrust : trustedIssuer inst scope (bindingRow rows b.issuer).isNone b inst.configs = .ok trusted)
    (expect : Option String) :
    d.grantsOne ((Effect.setIssuerBinding b expect).needs inst) = true := by
  have hcov : scope.covers b.issuer = d.allowed askedIssuers := by
    rw [h.covers hgate hd, beq_false_of_ne hother, Bool.or_false]
  have hwide := h.platformWide hgate hd
  have hrow : inst.row b.issuer = bindingRow rows b.issuer := by
    rw [Instance.row, hrows, Option.getD_some]
  cases hplat : d.allowed askedIssuers with
  | true =>
    obtain ⟨group, hneeds⟩ := setIssuerBinding_needs inst b expect
    rw [hneeds]
    exact grantsOne_of_platform group hplat
  | false =>
    rw [hplat] at hcov hwide
    unfold Effect.needs
    dsimp only
    rw [hrow]
    unfold ownershipRefusal at howner
    cases hcur : bindingRow rows b.issuer with
    | some row =>
      -- the admins of its group, who keep it there
      simp only [hcur, hcov, hwide, Bool.or_self, Bool.false_or] at howner
      split at howner
      · cases howner
      rename_i howns
      split at howner
      · cases howner
      rename_i hmoved
      have hsame : b.storeGroup = row.storeGroup := by
        by_contra hne
        exact hmoved (by simp [hne])
      dsimp only
      rw [if_pos hsame]
      exact grantsOne_of_managesGroup hd (by simpa using howns)
    | none =>
      simp only [hcur, hcov, Bool.not_false, Bool.true_and] at howner
      split at howner
      · cases howner
      rename_i howns
      have hmanages : (b.storeGroup != "" && scopeManagesGroup scope b.storeGroup) = true := by
        simpa using howns
      have hgroup : b.storeGroup ≠ "" := by
        rw [Bool.and_eq_true] at hmanages
        exact bne_iff_ne.mp hmanages.1
      rw [hcur] at htrust
      have henv : inst.fromEnv b.issuer = false :=
        trustedIssuer_not_fromEnv htrust hgroup hwide hcov
      dsimp only
      rw [henv, if_neg (by simp)]
      exact grantsOne_of_managesGroup hd hmanages

/-- The write of an own issuer's row that keeps its group, is valid and narrows the environment goes
to the engine. -/
theorem writeBinding_own {rows : List Binding} {b : Binding} (hcov : scope.covers b.issuer = true)
    (hsame : ∀ row ∈ bindingRow rows b.issuer, b.storeGroup = row.storeGroup)
    (hvalid : validRow inst.lib b = true)
    (hknown : (inst.configs.any fun ic => ic.issuer = b.issuer) = true)
    (hnarrows : narrowsEnv inst.lib b inst.configs = true) :
    writeBinding inst scope rows b =
      inst.write (.setIssuerBinding b ((bindingRow rows b.issuer).map (·.storeGroup))) := by
  have howner : ownershipRefusal scope (bindingRow rows b.issuer) b = none := by
    unfold ownershipRefusal
    cases hcur : bindingRow rows b.issuer with
    | some row => simp [hcov, hsame row hcur]
    | none => simp [hcov]
  unfold writeBinding
  dsimp only
  rw [howner]
  simp only [hvalid, Bool.not_true, Bool.false_eq_true, if_false,
    trustedIssuer_own _ hcov inst.configs, hnarrows, hknown, if_true]

/-- Without a grant a write of the own issuer's row goes to the engine only so. -/
theorem OnIssuers.own_taken (h : OnIssuers r) (hgate : adminGate inst.toGate t r.needs = .ok scope)
    (hd : scope.decide = some d) {rows : List Binding} (hrows : inst.bindings = some rows) {b : Binding}
    (hcov : scope.covers b.issuer = true) {expect : Option String}
    (hnot : d.grantsOne ((Effect.setIssuerBinding b expect).needs inst) = false)
    (howner : ownershipRefusal scope (bindingRow rows b.issuer) b = none) {trusted : Bool}
    (htrust : trustedIssuer inst scope (bindingRow rows b.issuer).isNone b inst.configs = .ok trusted)
    (huntrusted : trusted = false → untrustedRefusal inst scope b = none) :
    (∀ row ∈ bindingRow rows b.issuer, b.storeGroup = row.storeGroup) ∧
      (inst.configs.any fun ic => ic.issuer = b.issuer) = true ∧
      narrowsEnv inst.lib b inst.configs = true := by
  have hrow : inst.row b.issuer = bindingRow rows b.issuer := by
    rw [Instance.row, hrows, Option.getD_some]
  have hwide : scope.platformWide = false := by
    obtain ⟨group, hneeds⟩ := setIssuerBinding_needs inst b expect
    rw [hneeds, grantsOne_manageIssuers, Bool.or_eq_false_iff] at hnot
    rw [h.platformWide hgate hd, hnot.1]
  have hsame : ∀ row ∈ bindingRow rows b.issuer, b.storeGroup = row.storeGroup := by
    intro row hcur
    unfold ownershipRefusal at howner
    simp only [Option.mem_def.mp hcur, hcov, hwide, Bool.or_true, Bool.true_or, Bool.not_true,
      Bool.false_eq_true, if_false, Bool.not_false, Bool.and_true] at howner
    by_contra hne
    rw [if_pos (by simpa using hne)] at howner
    cases howner
  rw [trustedIssuer_own _ hcov] at htrust
  split at htrust
  · rename_i hnarrows
    refine ⟨hsame, ?_, hnarrows⟩
    by_contra hunknown
    rw [Bool.not_eq_true] at hunknown
    rw [hunknown] at htrust
    have huntrusted := huntrusted (Except.ok.inj htrust).symm
    -- an issuer that is not trusted is admitted with the grant of its group only
    unfold untrustedRefusal at huntrusted
    split at huntrusted
    · cases huntrusted
    rename_i hgroup
    split at huntrusted
    · cases huntrusted
    rename_i hmanages
    have hne : b.storeGroup ≠ "" := fun heq => hgroup (.inl heq)
    have hmanages : (b.storeGroup != "" && scopeManagesGroup scope b.storeGroup) = true := by
      simpa [hwide, hne] using hmanages
    have hgranted := grantsOne_of_managesGroup hd hmanages
    have henv : inst.fromEnv b.issuer = false := by
      unfold Instance.fromEnv
      have hnone : (inst.configs.find? fun ic => ic.issuer = b.issuer) = none := by
        rw [List.find?_eq_none]
        exact List.any_eq_false.mp hunknown
      rw [hnone]
      rfl
    unfold Effect.needs at hnot
    dsimp only at hnot
    rw [hrow] at hnot
    cases hcur : bindingRow rows b.issuer with
    | some row =>
      simp only [hcur, ← hsame row hcur, if_true] at hnot
      rw [hgranted] at hnot
      cases hnot
    | none =>
      simp only [hcur, henv, Bool.false_eq_true, if_false] at hnot
      rw [hgranted] at hnot
      cases hnot
  · cases htrust

/-- **Writes of the own issuer's row.** -/
theorem OnIssuers.within_own (h : OnIssuers r) (hgate : adminGate inst.toGate t r.needs = .ok scope)
    (hd : scope.decide = some d) {rows : List Binding} (hrows : inst.bindings = some rows) {b : Binding}
    (hown : b.issuer = t.issuer) :
    Within inst d (writeBinding inst scope rows b) ↔ ¬OwnWrite inst d t.issuer b := by
  have hcov : scope.covers b.issuer = true := by
    rw [h.covers hgate hd, hown, beq_self_eq_true, Bool.or_true]
  have hrow : inst.row b.issuer = bindingRow rows b.issuer := by
    rw [Instance.row, hrows, Option.getD_some]
  unfold OwnWrite
  dsimp only
  rw [← hown, hrow]
  cases hgrant : d.grantsOne ((Effect.setIssuerBinding b
      ((bindingRow rows b.issuer).map (·.storeGroup))).needs inst) with
  | true =>
    refine iff_of_true ?_ (by rintro ⟨-, -, hnot, -⟩; cases hnot)
    obtain ⟨status, message, heq⟩ | ⟨trusted, -, -, -, -, heq⟩ := writeBinding_cases rows b
    · rw [heq]
      exact within_error ..
    · rw [heq]
      exact within_write hgrant
  | false =>
    by_cases hcond : (∀ row ∈ bindingRow rows b.issuer, b.storeGroup = row.storeGroup) ∧
        validRow inst.lib b = true ∧ (inst.configs.any fun ic => ic.issuer = b.issuer) = true ∧
        narrowsEnv inst.lib b inst.configs = true
    · obtain ⟨hsame, hvalid, hknown, hnarrows⟩ := hcond
      rw [writeBinding_own hcov hsame hvalid hknown hnarrows, within_write_iff, not_iff_not]
      constructor
      · rintro ⟨hengine, -⟩
        exact ⟨rfl, by simp [hrows], rfl, hsame, hvalid, hknown, hnarrows, hengine⟩
      · rintro ⟨-, -, -, -, -, -, -, hengine⟩
        exact ⟨hengine, hgrant⟩
    · refine iff_of_true ?_ ?_
      · obtain ⟨status, message, heq⟩ | ⟨trusted, howner, hvalid, htrust, huntrusted, heq⟩ :=
          writeBinding_cases rows b
        · rw [heq]
          exact within_error ..
        · obtain ⟨hsame, hknown, hnarrows⟩ :=
            h.own_taken hgate hd hrows hcov hgrant howner htrust huntrusted
          exact absurd ⟨hsame, hvalid, hknown, hnarrows⟩ hcond
      · rintro ⟨-, -, -, hsame, hvalid, hknown, hnarrows, -⟩
        exact hcond ⟨hsame, hvalid, hknown, hnarrows⟩

theorem within_setIssuerBinding {body : Option Binding}
    (hgate : adminGate inst.toGate t (AdminRequest.needs (.setIssuerBinding body)) = .ok scope)
    (hd : scope.decide = some d) :
    Within inst d (adminSetIssuerBinding inst t body) ↔
      ¬Overreach inst d t.issuer (.setIssuerBinding body) := by
  have hon : OnIssuers (.setIssuerBinding body) := .of_path "issuer-bindings" rfl (by decide)
  unfold adminSetIssuerBinding Overreach
  rcases admin_delegated hgate hd with ⟨hpass, hadmin⟩ | ⟨hpass, message, hadmin⟩
  · rw [hon.passes] at hpass
    simp only [hadmin, hpass, true_and]
    cases hnorm : normalizeBinding inst body with
    | error e =>
      -- the text of the refusal may name another issuer
      have heffects := normalizeBinding_error hnorm
      simp [Within, heffects]
    | ok b =>
      dsimp only
      cases hrows : inst.bindings with
      | none =>
        refine iff_of_true (within_error ..) ?_
        rintro ⟨-, hsome, -⟩
        rw [hrows] at hsome
        cases hsome
      | some rows =>
        by_cases hown : b.issuer = t.issuer
        · exact hon.within_own hgate hd hrows hown
        · refine iff_of_true ?_ (fun hwrite => hown hwrite.1)
          dsimp only
          obtain ⟨status, message, heq⟩ | ⟨trusted, howner, -, htrust, -, heq⟩ :=
            writeBinding_cases rows b
          · rw [heq]
            exact within_error ..
          · rw [heq]
            exact within_write (hon.granted_other hgate hd hrows hown howner htrust _)
  · rw [hon.passes] at hpass
    simp only [hadmin, hpass]
    simp [within_forbidden]

theorem within_deleteIssuerBinding {issuer : String}
    (hgate : adminGate inst.toGate t (AdminRequest.needs (.deleteIssuerBinding issuer)) = .ok scope)
    (hd : scope.decide = some d) :
    Within inst d (adminDeleteIssuerBinding inst t issuer) ↔
      ¬Overreach inst d t.issuer (.deleteIssuerBinding issuer) := by
  have hon : OnIssuers (.deleteIssuerBinding issuer) := .of_path "issuer-bindings" rfl (by decide)
  unfold adminDeleteIssuerBinding Overreach
  rcases admin_delegated hgate hd with ⟨hpass, hadmin⟩ | ⟨hpass, message, hadmin⟩
  · rw [hon.passes] at hpass
    simp only [hadmin, hpass, true_and]
    generalize hiss : inst.resolveIssuer issuer = iss
    by_cases hnil : iss = ""
    · rw [if_pos hnil]
      refine iff_of_true ?_ ?_
      · split
        · exact within_badRequest _
        · exact within_error ..
      · rintro ⟨hne, heq, -⟩
        exact hne (heq ▸ hnil)
    · rw [if_neg hnil]
      cases hrows : inst.bindings with
      | none => simp [within_error]
      | some rows =>
        have hrow : ∀ iss, inst.row iss = bindingRow rows iss := fun iss => by
          rw [Instance.row, hrows, Option.getD_some]
        simp only [hon.covers hgate hd]
        by_cases hown : iss = t.issuer
        · subst hown
          simp only [beq_self_eq_true, Bool.or_true, Bool.not_true, Bool.false_and,
            Bool.false_eq_true, if_false]
          rw [within_write_iff, not_iff_not]
          simp only [Effect.needs, hrow, ne_eq, hnil, not_false_eq_true, Option.isSome_some, true_and]
          exact and_comm
        · -- the row of another issuer is its group's or the platform's
          refine iff_of_true ?_ (fun h => hown h.2.1)
          rw [beq_false_of_ne hown, Bool.or_false]
          split
          · exact within_forbidden _
          · rename_i hallowed
            refine within_write ?_
            simp only [Effect.needs, hrow]
            cases hplat : d.allowed askedIssuers with
            | true => exact grantsOne_of_platform _ hplat
            | false =>
              rw [hplat] at hallowed
              cases hcur : bindingRow rows iss with
              | none => simp [hcur] at hallowed
              | some row =>
                exact grantsOne_of_managesGroup hd (by simpa [hcur] using hallowed)
  · rw [hon.passes] at hpass
    simp only [hadmin, hpass]
    simp [within_forbidden]

/-! ## Creating a store, and tests -/

theorem within_upsertStore {s : String} {body : Option StoreUpsert}
    (hgate : adminGate inst.toGate t (AdminRequest.needs (.upsertStore s body)) = .ok scope)
    (hd : scope.decide = some d) :
    Within inst d (adminUpsertStore inst t s body) ↔
      ¬Overreach inst d t.issuer (.upsertStore s body) := by
  unfold adminUpsertStore onStore requireStoreScope Overreach
  by_cases hs : plainName s = true
  swap
  · -- no store has such a name
    refine iff_of_true ?_ (fun h => hs h.2.1)
    rcases admin_delegated hgate hd with ⟨-, hadmin⟩ | ⟨-, message, hadmin⟩
    · simp only [hadmin, hs, Bool.not_false, if_true]
      exact within_badRequest _
    · simp only [hadmin]
      exact within_forbidden _
  have hneeds : AdminRequest.needs (.upsertStore s body) =
      ⟨"can_manage_access", "can_create_store", "platform", "default"⟩ := by
    have hpath : AdminRequest.path (.upsertStore s body) = "stores/" ++ s ++ "" := AdminRequest.path_self rfl
    rw [AdminRequest.needs, hpath, delegatedNeeds_store _ hs rfl]
    rfl
  have hdneeds := (adminGate_delegated hgate hd).2
  rw [hneeds] at hdneeds
  have hcov : scope.coversStore inst.lib s = d.allowed ⟨"can_manage_access", "store", s⟩ := by
    rw [coversStore_delegated hd, hdneeds]
    rfl
  have hwide : scope.platformWide = d.allowed ⟨"can_create_store", "platform", "default"⟩ := by
    rw [platformWide_delegated hd (by rw [hdneeds]; decide), hdneeds]
  have hcreating : creatingStore scope (.upsertStore s body) s =
      ((d.scopes.contains "admin" || d.scopes.contains "ci") &&
        d.allowed ⟨"can_create_store", "platform", "default"⟩) := by
    have hpath : AdminRequest.path (.upsertStore s body) = "stores/" ++ s := rfl
    unfold creatingStore
    rw [hd, hwide, hpath]
    simp [AdminRequest.method]
  rcases admin_delegated hgate hd with ⟨-, hadmin⟩ | ⟨hpass, message, hadmin⟩
  · simp only [hadmin, hs, hcov, hcreating, Bool.not_true, Bool.false_eq_true, if_false, true_and]
    cases hmanage : d.allowed ⟨"can_manage_access", "store", s⟩ with
    | true =>
      refine iff_of_true ?_ (by rintro ⟨-, -, hnot, -⟩; cases hnot)
      simp only [Bool.not_true, Bool.false_and, Bool.false_eq_true, if_false]
      cases body with
      | none => exact within_badRequest _
      | some req => exact within_write (by simp [Effect.needs, Delegated.grantsOne, hmanage])
    | false =>
      cases hcreate : d.allowed ⟨"can_create_store", "platform", "default"⟩ with
      | false =>
        refine iff_of_true ?_ (by rintro ⟨-, -, -, hnot, -⟩; cases hnot)
        simp only [Bool.and_false, Bool.not_false, Bool.and_true, if_true]
        exact within_forbidden _
      | true =>
        cases hscope : d.scopes.contains "admin" || d.scopes.contains "ci" with
        | false =>
          refine iff_of_true ?_ (by rintro ⟨hnot, -⟩; cases hnot)
          simp only [Bool.not_false, Bool.and_true, if_true]
          exact within_forbidden _
        | true =>
          -- the right to create a store is taken for one that may exist
          simp only [Bool.and_true, Bool.not_true, Bool.and_false, Bool.false_eq_true, if_false,
            true_and]
          cases body with
          | none => simp [within_badRequest]
          | some req =>
            dsimp only
            rw [within_write_iff, not_iff_not]
            by_cases hexists : s ∈ inst.stores
            · simp [Effect.needs, Delegated.grantsOne, hmanage, hexists]
            · simp [Effect.needs, Delegated.grantsOne, hcreate, hexists]
  · -- the scopes that create a store cover the request
    simp only [hadmin]
    refine iff_of_true (within_forbidden _) ?_
    rintro ⟨hscope, -⟩
    have hstart : startsWith (AdminRequest.path (.upsertStore s body)) "issuer" = false := by
      rw [startsWith, show AdminRequest.path (.upsertStore s body) = "stores/" ++ s from rfl,
        String.toList_append]
      rfl
    rw [Delegated.passes, Delegated.coversScope, hstart] at hpass
    simp only [Bool.or_eq_false_iff, Bool.not_false, Bool.and_true] at hpass
    rw [hpass.1.1.1, hpass.1.2] at hscope
    cases hscope

theorem testFixture_error {req : TestModel} {e : Reply} (h : testFixture req = .error e) :
    ∃ status message, e = .error status message := by
  unfold testFixture at h
  split at h
  · exact ⟨_, _, (Except.error.inj h).symm⟩
  split at h
  · exact ⟨_, _, (Except.error.inj h).symm⟩
  · dsimp only at h
    generalize (if req.store ≠ "" then _ else _ : Fixture) = fix at h
    split at h
    · exact ⟨_, _, (Except.error.inj h).symm⟩
    split at h
    · exact ⟨_, _, (Except.error.inj h).symm⟩
    split at h
    · exact ⟨_, _, (Except.error.inj h).symm⟩
    · cases h

theorem testRefusal_error {fix : Fixture} {keep : Bool} {e : Reply}
    (h : testRefusal inst.lib scope fix keep = some e) :
    ∃ status message, e = .error status message := by
  unfold testRefusal at h
  split at h
  · exact ⟨_, _, (Option.some.inj h).symm⟩
  split at h
  · exact ⟨_, _, (Option.some.inj h).symm⟩
  split at h
  · exact ⟨_, _, (Option.some.inj h).symm⟩
  split at h
  · exact ⟨_, _, (Option.some.inj h).symm⟩
  · cases h

/-- A test that is not refused was granted: on the store it tests, or else on the registry, and to
create the store that it keeps. -/
theorem testRefusal_none {fix : Fixture} {keep : Bool} (hd : scope.decide = some d)
    (hneeds : d.needs = ⟨"can_run_tests", "can_view", "registry", "default"⟩)
    (h : testRefusal inst.lib scope fix keep = none) :
    d.grantsOne ((Record.testReport (if fix.store = "" then none else some fix.store)).needs inst) =
        true ∧
      (keep = true → d.grantsOne (Effect.keepTestStore.needs inst) = true) := by
  have hcov : scope.coversStore inst.lib fix.store =
      d.allowed ⟨"can_run_tests", "store", fix.store⟩ := by
    rw [coversStore_delegated hd, hneeds]
    rfl
  have hwide : scope.platformWide = d.allowed ⟨"can_view", "registry", "default"⟩ := by
    rw [platformWide_delegated hd (by rw [hneeds]; decide), hneeds]
  unfold testRefusal at h
  simp only [hd, hcov, hwide, Option.isSome_some, Bool.and_true] at h
  split at h
  · cases h
  split at h
  · cases h
  rename_i hstore
  split at h
  · cases h
  rename_i hregistry
  split at h
  · cases h
  rename_i hkeep
  constructor
  · by_cases hnil : fix.store = ""
    · rw [if_pos hnil]
      exact grantsOne_single (by simpa [hnil] using hregistry)
    · rw [if_neg hnil]
      exact grantsOne_single (by simpa [hnil] using hstore)
  · rintro rfl
    refine grantsOne_single ?_
    simp only [AdminScope.keepAllowed, hd, Bool.true_and, Bool.not_eq_true', Bool.not_eq_false,
      Bool.and_eq_true] at hkeep
    exact hkeep.2

theorem within_testModel {body : Option TestModel}
    (hgate : adminGate inst.toGate t (AdminRequest.needs (.testModel body)) = .ok scope)
    (hd : scope.decide = some d) : Within inst d (adminTestModel inst t body) := by
  have hneeds : d.needs = ⟨"can_run_tests", "can_view", "registry", "default"⟩ := by
    rw [(adminGate_delegated hgate hd).2]
    have : AdminRequest.path (.testModel body) = "models/test" := rfl
    rw [AdminRequest.needs, this, delegatedNeeds, if_neg (by decide), if_pos rfl]
  unfold adminTestModel
  rcases admin_delegated hgate hd with ⟨-, hadmin⟩ | ⟨-, message, hadmin⟩
  · simp only [hadmin]
    cases body with
    | none => exact within_badRequest _
    | some req =>
      dsimp only
      cases hfix : testFixture req with
      | error e =>
        obtain ⟨status, message, rfl⟩ := testFixture_error hfix
        exact within_error ..
      | ok fix =>
        dsimp only
        cases hrefusal : testRefusal inst.lib scope fix req.keepStore with
        | some e =>
          obtain ⟨status, message, rfl⟩ := testRefusal_error hrefusal
          exact within_error ..
        | none =>
          obtain ⟨hreport, hkeep⟩ := testRefusal_none hd hneeds hrefusal
          dsimp only
          split
          · rename_i hkeeps
            have hwrite := within_write (hkeep hkeeps)
            refine ⟨hwrite.1, fun rec hrec => ?_⟩
            split at hrec
            · cases hrec
            · rw [List.mem_singleton.mp hrec]
              exact hreport
          · exact within_record hreport
  · simp only [hadmin]
    exact within_forbidden _

/-! ## Every route -/

theorem within_stores (hgate : adminGate inst.toGate t (AdminRequest.needs .stores) = .ok scope)
    (hd : scope.decide = some d) : Within inst d (adminStores inst t) := by
  have hneeds : d.needs.storeRel = "can_view" := by
    rw [(adminGate_delegated hgate hd).2]
    rfl
  unfold adminStores
  rcases admin_delegated hgate hd with ⟨-, hadmin⟩ | ⟨-, message, hadmin⟩
  · simp only [hadmin]
    rw [within_records]
    rintro ⟨_, hmem, hnot⟩
    obtain ⟨s, hs, rfl⟩ := List.mem_map.mp hmem
    have hcov := (List.mem_filter.mp hs).2
    rw [coversStore_delegated hd, hneeds, Bool.and_eq_true] at hcov
    rw [Record.needs, grantsOne_single hcov.2] at hnot
    cases hnot
  · simp only [hadmin]
    exact within_forbidden _

theorem within_deleteStore {s : String} {purgeAudit purgeDecisions : Bool}
    (hgate : adminGate inst.toGate t
      (AdminRequest.needs (.deleteStore s purgeAudit purgeDecisions)) = .ok scope)
    (hd : scope.decide = some d) :
    Within inst d (adminDeleteStore inst t s purgeAudit purgeDecisions) := by
  refine within_storeRoute "" hgate hd (AdminRequest.path_self rfl) rfl nofun fun hgrant => ?_
  split
  · exact within_error ..
  · have hwrite : Within inst d (inst.write (.deleteStore s purgeAudit)) := within_write hgrant
    refine ⟨fun e he => ?_, hwrite.2⟩
    rcases List.mem_append.mp he with he | he
    · exact hwrite.1 e he
    · split at he
      · rw [List.mem_singleton.mp he]
        exact hgrant
      · cases he

theorem within_applyModel {s : String} {model : Option String} {plan : Bool}
    (hgate : adminGate inst.toGate t (AdminRequest.needs (.applyModel s model plan)) = .ok scope)
    (hd : scope.decide = some d) : Within inst d (adminApplyModel inst t s model plan) := by
  refine within_storeRoute "/model" hgate hd rfl rfl (fun _ => by decide) fun hgrant => ?_
  have hgrant : d.grantsOne [⟨"can_rollout", "store", s⟩] = true := hgrant
  cases model with
  | none => exact within_badRequest _
  | some ref =>
    dsimp only
    cases parseModelRef ref with
    | none => exact within_badRequest _
    | some parsed =>
      obtain ⟨name, version⟩ := parsed
      dsimp only
      cases inst.planApply s name version with
      | none => exact within_error ..
      | some canApply =>
        dsimp only
        split
        · exact within_record hgrant
        split
        · exact ⟨nofun, fun rec hrec => (List.mem_singleton.mp hrec) ▸ hgrant⟩
        · refine ⟨(within_write hgrant).1, fun rec hrec => ?_⟩
          split at hrec
          · cases hrec
          · exact (List.mem_singleton.mp hrec) ▸ hgrant

/-- A handler that refuses, or else goes on. -/
theorem within_refusal {refusal : Option Reply} {reply : Reply}
    (hrefusal : ∀ e ∈ refusal, ∃ status message, e = .error status message)
    (h : Within inst d reply) : Within inst d (refusal.getD reply) := by
  cases refusal with
  | none => exact h
  | some e =>
    obtain ⟨status, message, rfl⟩ := hrefusal e rfl
    exact within_error ..

theorem subjectRefusal_error {typ id : String} {limit : Option ℤ} :
    ∀ e ∈ subjectRefusal typ id limit, ∃ status message, e = .error status message := by
  intro e he
  unfold subjectRefusal at he
  split at he
  · exact ⟨_, _, (Option.some.inj he).symm⟩
  split at he
  · exact ⟨_, _, (Option.some.inj he).symm⟩
  split at he
  · exact ⟨_, _, (Option.some.inj he).symm⟩
  · cases he

theorem namespaceAndRole_error {ns role : String} :
    ∀ e ∈ namespaceAndRole ns role, ∃ status message, e = .error status message := by
  intro e he
  unfold namespaceAndRole at he
  split at he
  · exact ⟨_, _, (Option.some.inj he).symm⟩
  split at he
  · exact ⟨_, _, (Option.some.inj he).symm⟩
  · cases he

theorem namespaces_path (s ns role : String) : "stores/" ++ s ++ "/namespaces/" ++ ns ++ "/access/" ++ role =
    "stores/" ++ s ++ ("/namespaces/" ++ (ns ++ "/access/" ++ role)) := by
  simp only [String.append_assoc]

theorem subjectObjects_path (s typ id : String) :
    "stores/" ++ s ++ "/subjects/" ++ typ ++ "/" ++ id ++ "/objects" =
      "stores/" ++ s ++ ("/subjects/" ++ (typ ++ "/" ++ id ++ "/objects")) := by
  simp only [String.append_assoc]

theorem subjectExport_path (s typ id : String) :
    "stores/" ++ s ++ "/subjects/" ++ typ ++ "/" ++ id =
      "stores/" ++ s ++ ("/subjects/" ++ (typ ++ "/" ++ id)) := by
  simp only [String.append_assoc]

theorem groups_path (group : String) : "groups/" ++ group = "groups" ++ ("/" ++ group) := by
  rw [← String.append_assoc]
  rfl

theorem models_path (name rest : String) :
    "models/" ++ name ++ rest = "models" ++ ("/" ++ name ++ rest) := by
  rw [← String.append_assoc, ← String.append_assoc]
  rfl

/-- No route below a model is the route of the tests. -/
theorem models_path_ne {rest : String} (name : String) (hrest : 4 < rest.length) :
    "models/" ++ name ++ rest ≠ "models/test" := by
  intro heq
  have hlen := congrArg String.length heq
  simp only [String.length_append] at hlen
  have : "models/".length = 7 := rfl
  have : "models/test".length = 11 := rfl
  omega

/-- **The other routes.** On every route but six the handlers keep within the grants. -/
theorem serve_within (hgate : adminGate inst.toGate t r.needs = .ok scope)
    (hd : scope.decide = some d)
    (hissuers : startsWith r.path "issuer" = false) (hupsert : ∀ s body, r ≠ .upsertStore s body) :
    Within inst d (serve inst t r) := by
  cases r with
  -- the routes of the issuers, and creating a store, are left out
  | issuers => exact absurd hissuers (by decide)
  | issuerBindings issuer =>
    exact absurd (show startsWith "issuer-bindings" "issuer" = false from hissuers) (by decide)
  | issuerBindingsAudit issuer limit before =>
    exact absurd (show startsWith "issuer-bindings/audit" "issuer" = false from hissuers) (by decide)
  | setIssuerBinding body =>
    exact absurd (show startsWith "issuer-bindings" "issuer" = false from hissuers) (by decide)
  | deleteIssuerBinding issuer =>
    exact absurd (show startsWith "issuer-bindings" "issuer" = false from hissuers) (by decide)
  | upsertStore s body => exact absurd rfl (hupsert s body)
  | stores => exact within_stores hgate hd
  | store s =>
    refine within_storeRoute "" hgate hd (AdminRequest.path_self rfl) rfl nofun fun hgrant => ?_
    split
    · exact within_record hgrant
    · exact within_error ..
  | deleteStore s purgeAudit purgeDecisions => exact within_deleteStore hgate hd
  | purgeStoreDecisions s storeId =>
    refine within_below "/decisions" "" hgate hd rfl rfl (by decide) (by decide) fun hgrant => ?_
    split
    · exact within_badRequest _
    split
    · exact within_error ..
    split
    · exact within_error ..
    · exact within_write hgrant
  | storeDeletions s =>
    exact within_below "/deletions" "" hgate hd rfl rfl (by decide) (by decide)
      fun hgrant => within_record hgrant
  | storeModel s =>
    exact within_storeRoute "/model" hgate hd rfl rfl nofun fun hgrant => within_record hgrant
  | applyModel s model plan => exact within_applyModel hgate hd
  | recorders s =>
    exact within_below "/recorders" "" hgate hd rfl rfl (by decide) (by decide)
      fun hgrant => within_record hgrant
  | setRecorder s role actions =>
    refine within_below "/recorders/" role hgate hd (String.append_assoc ..) rfl (by decide) (by decide)
      fun hgrant => ?_
    split
    · exact within_badRequest _
    split
    · exact within_badRequest _
    · exact within_badRequest _
    · exact within_write hgrant
  | deleteRecorder s role =>
    exact within_below "/recorders/" role hgate hd (String.append_assoc ..) rfl (by decide)
      (by decide) fun hgrant => within_write hgrant
  | namespaces s =>
    exact within_below "/namespaces" "" hgate hd rfl rfl (by decide) (by decide)
      fun hgrant => within_record hgrant
  | setNamespaceAccess s ns role body =>
    refine within_below "/namespaces/" (ns ++ "/access/" ++ role) hgate hd
      (namespaces_path s ns role) rfl (by decide) (by decide) fun hgrant => ?_
    apply within_refusal namespaceAndRole_error
    split
    · exact within_badRequest _
    · exact within_write hgrant
  | deleteNamespaceAccess s ns role =>
    refine within_below "/namespaces/" (ns ++ "/access/" ++ role) hgate hd
      (namespaces_path s ns role) rfl (by decide) (by decide) fun hgrant => ?_
    apply within_refusal namespaceAndRole_error
    exact within_write hgrant
  | subjectObjects s typ id limit =>
    refine within_subjectRoute hgate hd (subjectObjects_path s typ id) rfl fun hgrant => ?_
    apply within_refusal subjectRefusal_error
    exact within_record hgrant
  | subjectExport s typ id limit =>
    refine within_subjectRoute hgate hd (subjectExport_path s typ id) rfl fun hgrant => ?_
    apply within_refusal subjectRefusal_error
    exact within_record hgrant
  -- the platform moves a store, and the path names the store that is moved
  | setStoreGroup s group =>
    refine within_onPlatform hgate hd fun hallowed => ?_
    split
    · exact within_badRequest _
    rename_i hs
    rw [AdminRequest.needs, show AdminRequest.path (.setStoreGroup s group) =
      "stores/" ++ s ++ "/group" from rfl, delegatedNeeds_store _ (by simpa using hs) rfl] at hallowed
    split
    · exact within_badRequest _
    split
    · exact within_badRequest _
    · exact within_write (grantsOne_single hallowed)
  | groups => exact within_groupsRoute "" hgate hd rfl fun hgrant => within_record hgrant
  | upsertGroup group body =>
    refine within_groupsRoute ("/" ++ group) hgate hd (groups_path group) fun hgrant => ?_
    split
    · exact within_badRequest _
    split
    · exact within_badRequest _
    · exact within_write hgrant
  | deleteGroup group =>
    refine within_groupsRoute ("/" ++ group) hgate hd (groups_path group) fun hgrant => ?_
    split
    · exact within_badRequest _
    · exact within_write hgrant
  | modelConsumers group => exact within_onGroup hgate hd fun hgrant => within_record hgrant
  | grantModelConsumer group consumer =>
    refine within_onGroup hgate hd fun hgrant => ?_
    split
    · exact within_badRequest _
    · exact within_write hgrant
  | revokeModelConsumer group consumer =>
    refine within_onGroup hgate hd fun hgrant => ?_
    split
    · exact within_badRequest _
    · exact within_write hgrant
  | models name =>
    refine within_registryRoute "" hgate hd rfl (show "models" ≠ "models/test" by decide) fun hgrant => ?_
    split
    · exact within_badRequest _
    · exact within_record hgrant
  | testModel body => exact within_testModel hgate hd
  | publishModel name body =>
    refine within_registryRoute ("/" ++ name ++ "/versions") hgate hd (models_path name _)
      (models_path_ne name (by decide)) fun hgrant => ?_
    split
    · exact within_badRequest _
    split
    · exact within_badRequest _
    split
    · exact within_badRequest _
    split
    · exact within_badRequest _
    · exact within_write hgrant
  | modelRollout name =>
    refine within_registryRoute ("/" ++ name ++ "/rollout") hgate hd (models_path name _)
      (models_path_ne name (by decide)) fun hgrant => ?_
    split
    · exact within_badRequest _
    · exact within_record hgrant

/-- An issuer whose tokens with the scope `pgauthz:admin` the console store decides about. -/
def delegatingIssuer : Issuer :=
  { demoIssuer with admin := [⟨["pgauthz:admin"], [], [], "", [], [], some ⟨"console", "", ""⟩⟩] }

/-- The row of this issuer. -/
def delegatingRow : Binding :=
  ⟨"https://idp.example", "", ["demo"], [], [], [], true, "", "", "", [], []⟩

/-- A token of this issuer. -/
def strangerToken : Token where
  issuer := "https://idp.example"
  client := "console"
  roles := []
  scope := "pgauthz:admin"
  stringAt path := if path = "preferred_username" then "mallory" else ""
  valuesAt _ := []

/-- An instance whose deciding store holds no tuple. -/
def tuplelessInstance : Instance where
  lib := plainLib
  configs := [delegatingIssuer]
  subjectIdClaim := ""
  adminRole := ""
  checkWithContextualTuples _ _ _ _ _ := .ok false
  bindings := some [delegatingRow]
  history := []
  stores := ["demo"]
  incarnation _ := 1
  deletions := []
  decisionSink := false
  mergeOptions := ⟨false, []⟩
  planApply _ _ _ := none
  engineRefuses _ := none

/-- The subject that the token becomes. -/
def strangerSubject : Delegated where
  store := "console"
  subjType := "user"
  subjId := "mallory"
  ctxTuples := [⟨"user", "mallory", "member", "team", "scope_pgauthz:admin"⟩]
  scopes := ["admin"]
  check _ := .ok false
  needs := ⟨"", askedIssuers⟩

theorem strangerToken_admitted :
    adminGate tuplelessInstance.toGate strangerToken
      (AdminRequest.needs (.deleteIssuerBinding "https://idp.example")) =
        .ok ⟨false, "https://idp.example", [], none, [], some strangerSubject⟩ := by
  rfl

end PgAuthz.Daemon
