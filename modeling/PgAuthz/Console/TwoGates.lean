import PgAuthz.Console.Interleaving

/-!
# The two gates of a console change

A handler of the console asks what the person may do before it starts, and its transaction asks again
once it has its locks. The handlers write the question twice, and nearly all of them write the same
question. Publishing asks for the store and the registry, and in its transaction for the store alone.
Removing the binding of a group lets in whoever manages the issuers of the group, and then asks for the
platform. A test asks for what the test policy wants of it, and is recorded for the right to run tests
alone.

## Main definitions

* `ConsoleView`: what the console reads to decide a request
* `ConsoleRequest`: the requests whose handlers run a transaction as the person
* `checks`, `authorize`: what the handler asks, and what its transaction asks
* `SameQuestion`: where the two have the same answer

## Main results

* `mem_groupsReaching`: the reverse search finds the groups on which a question is answered with yes
* `authorize_request`: on the changes of roles the transaction asks what `RoleChange.gate` says
* `gates_agree_iff`: the two gates agree iff `SameQuestion`
-/

namespace PgAuthz.Console

/-! ## Requests -/

/-- `checkReq`: the subject of a question, and the instant that it is decided at, empty for now. -/
structure CheckReq where
  subjectType : String
  subjectId : String
  instant : String
deriving DecidableEq, Repr

/-- A test of a fixture, with the number of its listings and of its explanations. -/
structure ScenarioTest where
  listObjects : ℕ
  listSubjects : ℕ
  explain : ℕ
deriving DecidableEq, Repr

/-- The tests of a store. -/
inductive TestRequest
  | check (q : CheckReq)
  | explain (q : CheckReq)
  | actions (subjectType subjectId : String)
  | checkBatch (subjects : List (String × String))
  | search
  | evaluateCondition
  | scenariosRun (tests : List ScenarioTest)
  | scenariosExplain
deriving DecidableEq, Repr

/-- The requests whose handlers run a transaction as the person, with what their gates read of them. A
request is well formed, and a store to adopt exists. -/
inductive ConsoleRequest
  | accessAdd (s : String)
  | accessRemove (s : String)
  | tuplesExport (s : String)
  | offboard (s : String)
  | scoped (s : String) (req : StoreRequest)
  | modelDSL (s : String)
  | groupCreate
  | groupUpdate (g : String)
  | groupDelete
  | storeGroupSet
  | groupAccessAdd (g : String)
  | groupAccessRemove (g : String)
  | groupConsumerGrant (g : String)
  | groupConsumerRevoke (g : String)
  | issuerSave (b : BindingRow)
  | issuerDelete (issuer : String)
  | signinSave (storeGroup : String)
  | namespaceAccessAdd (s : String)
  | namespaceAccessRemove (s : String)
  | namespaceRename (s : String)
  | opsRecorderGrant (s : String)
  | opsRecorderRevoke (s : String)
  | opsPurgeEvents (s : String)
  | opsCleanupExpired (s : String)
  | opsRedundant (s : String)
  | platformEnsurePartitions
  | platformDropEventPartitions
  | platformAccessAdd
  | platformAccessRemove
  | publish (s : String)
  | apply (s : String)
  | scenariosSave (s : String)
  | createStore
  | adoptStore (s : String)
  | storeSettings (s : String)
  | deleteStore (s : String)
  | retireStore (s : String)
  | subjectErase
  | test (s : String) (t : TestRequest)
deriving DecidableEq, Repr

/-! ## What the console reads -/

/-- What the console reads to decide a request: its settings, the subject types that denote the person
besides their own, its own store with the stores it manages, and the issuer bindings. -/
structure ConsoleView where
  cfg : Config
  registryId : String
  selfSubjectTypes : List String
  estate : Estate
  bindings : Keyed BindingRow.issuer

namespace ConsoleView

variable (V : ConsoleView) (p : Principal)

/-- The tuples of the console's own store. -/
def tuples : List RoleTuple := V.estate.roles.tuples.rows

/-- The registry object. -/
def registry : Obj := ⟨.registry, V.registryId⟩

/-- `can`: one question of the person. -/
def can (relation : Rel) (object : Obj) : Bool := canQ V.cfg V.tuples p relation object

/-- `groupsReaching`: the groups on which the person has a relation. -/
def groupsReaching (relation : Rel) : List String :=
  (V.tuples.filterMap fun t => if t.object.typ = .group then some t.object.id else none).dedup.filter
    fun g => V.can p relation ⟨.group, g⟩

/-- `issuerManager`: whether the person manages the issuers of the platform, else the groups whose
issuers they manage; neither is refused. -/
def issuerManager : Option (Bool × List String) :=
  let platform := V.can p .canManageIssuers V.cfg.platform
  let managed := if platform then [] else V.groupsReaching p .canManageIssuers
  if !platform && managed.isEmpty then none else some (platform, managed)

/-- `resolve_issuer` on a trimmed reference: an address is itself, anything else an alias. -/
def resolveIssuer (ref : String) : Option String :=
  if ref = "" then none
  else if "http://".toList.isPrefixOf ref.toList || "https://".toList.isPrefixOf ref.toList then some ref
  else (V.bindings.rows.find? fun b => b.aliasName = some ref.toLower).map (·.issuer)

/-- `bindingRow`: the row of an issuer, if there is one. -/
def bindingRow (issuer : String) : Option BindingRow :=
  V.bindings.rows.find? fun b => b.issuer = (V.resolveIssuer issuer).getD issuer

/-! ## What a handler asks -/

/-- The check of `handleIssuerSave`. -/
def issuerSaveChecks (b : BindingRow) : Bool :=
  match V.issuerManager p with
  | none => false
  | some _ =>
    match issuerObject V.cfg V.tuples p (V.bindingRow b.issuer) b with
    | .error _ => false
    | .ok object => V.can p .canManageIssuers object

/-- The check of `handleIssuerDelete`: the group of the row as it is decides. -/
def issuerDeleteChecks (issuer : String) : Bool :=
  match V.issuerManager p with
  | none => false
  | some (platform, managed) => platform ||
      (V.bindingRow issuer).any fun cur => cur.storeGroup ≠ "" && cur.storeGroup ∈ managed

/-- The check of `handleSigninSave`. -/
def signinSaveChecks (storeGroup : String) : Bool :=
  match V.issuerManager p with
  | none => false
  | some (platform, _) =>
    platform || (storeGroup ≠ "" && V.can p .canManageIssuers ⟨.group, storeGroup⟩)

/-- `isSelf`: the subject is the person, under a type that denotes people. -/
def isSelf (subjectType subjectId : String) : Bool :=
  subjectId = p.id && (subjectType = p.typ.name || subjectType ∈ V.selfSubjectTypes)

/-- `testPolicy`: what a tester may ask beyond their own access. -/
structure TestPolicy where
  others : Bool
  explainFull : Bool
  search : Bool
  history : Bool
deriving DecidableEq, Repr

/-- `testPolicyFor`. -/
def testPolicyFor (s : String) : TestPolicy where
  others := V.can p .canTestOthers ⟨.store, s⟩
  explainFull := V.can p .canTestExplainFull ⟨.store, s⟩
  search := V.can p .canTestSearch ⟨.store, s⟩
  history := V.can p .canTestHistory ⟨.store, s⟩

/-- What the test policy allows. Without the right to read a resolution tree in full, `explain` gives a
redacted one, and the scenarios give none. -/
def policyAllows (pol : TestPolicy) : TestRequest → Bool
  | .check q | .explain q =>
    (pol.others || V.isSelf p q.subjectType q.subjectId) && (q.instant = "" || pol.history)
  | .actions typ id => pol.others || V.isSelf p typ id
  | .checkBatch subjects => subjects.all fun sub => pol.others || V.isSelf p sub.1 sub.2
  | .search => pol.search
  | .evaluateCondition => true
  | .scenariosRun tests => pol.others && tests.all fun tc =>
      ((tc.listObjects = 0 && tc.listSubjects = 0) || pol.search) && (tc.explain = 0 || pol.explainFull)
  | .scenariosExplain => pol.others

/-- What a handler asks before its transaction. Handlers that open with `can_view` go by the scope. -/
def checks : ConsoleRequest → Bool
  | .accessAdd s | .accessRemove s | .namespaceAccessAdd s | .namespaceAccessRemove s
  | .opsRecorderGrant s | .opsRecorderRevoke s | .opsPurgeEvents s | .opsCleanupExpired s
  | .opsRedundant s | .storeSettings s => V.can p .canManageAccess ⟨.store, s⟩
  | .groupUpdate g | .groupAccessAdd g | .groupAccessRemove g | .groupConsumerGrant g
  | .groupConsumerRevoke g => V.can p .canManageAccess ⟨.group, g⟩
  | .groupCreate | .groupDelete | .storeGroupSet | .platformEnsurePartitions
  | .platformDropEventPartitions | .platformAccessAdd | .platformAccessRemove | .subjectErase =>
    V.can p .canManageAccess V.cfg.platform
  | .tuplesExport s => V.can p .canExport ⟨.store, s⟩
  | .offboard s => V.can p .canGrant ⟨.store, s⟩
  | .scoped s req => authorizeScoped V.cfg V.tuples p s req.cap (req.touched (V.estate.managed s))
  | .modelDSL s | .scenariosSave s => V.can p .canEditModel ⟨.store, s⟩
  | .issuerSave b => V.issuerSaveChecks p b
  | .issuerDelete issuer => V.issuerDeleteChecks p issuer
  | .signinSave storeGroup => V.signinSaveChecks p storeGroup
  | .namespaceRename s =>
    V.can p .canEditModel ⟨.store, s⟩ && V.can p .canManageAccess ⟨.store, s⟩
  | .publish s => V.can p .canPublish ⟨.store, s⟩ && V.can p .canPublish V.registry
  | .apply s => V.can p .canRollout ⟨.store, s⟩
  | .createStore => V.can p .canCreateStore V.cfg.platform
  | .adoptStore s => V.can p .canViewAllStores V.cfg.platform && !claimed V.cfg V.estate.roles s
  | .deleteStore s | .retireStore s => lifecycleGate V.cfg V.estate.roles p s
  | .test s t => V.can p .canRunTests ⟨.store, s⟩ && V.policyAllows p (V.testPolicyFor p s) t

/-! ## What a transaction asks -/

/-- `asPersonScoped`: the scope of the namespaces, and without any the object. -/
def asPersonScoped (action : Rel) (object : Obj) (namespaces : Option (List String)) : Bool :=
  match namespaces with
  | some touched => authorizeScoped V.cfg V.tuples p object.id action touched
  | none => V.can p action object

/-- `asPerson`. -/
def asPerson (action : Rel) (object : Obj) : Bool := V.asPersonScoped p action object none

/-- `platformGate`. -/
def platformGate (cap : Rel) : Bool := V.can p cap V.cfg.platform

/-- `storeGate`: all of the capabilities. -/
def storeGate (s : String) (caps : List Rel) : Bool := caps.all fun c => V.can p c ⟨.store, s⟩

/-- `recordTest`. -/
def recordTest (s : String) : Bool := V.asPerson p .canRunTests ⟨.store, s⟩

/-- The object that `handleIssuerSave` hands on: the platform until it takes a group. -/
def issuerSaveObject (b : BindingRow) : Obj :=
  match issuerObject V.cfg V.tuples p (V.bindingRow b.issuer) b with
  | .error _ => V.cfg.platform
  | .ok object => object

/-- The object that `handleSigninSave` hands on. -/
def signinSaveObject (storeGroup : String) : Obj :=
  if V.can p .canManageIssuers V.cfg.platform ∨ storeGroup = "" then V.cfg.platform
  else ⟨.group, storeGroup⟩

/-- What the transaction of a request asks once it has its locks. -/
def authorize : ConsoleRequest → Bool
  | .accessAdd s | .accessRemove s | .namespaceAccessAdd s | .namespaceAccessRemove s
  | .opsRecorderGrant s | .opsRecorderRevoke s | .opsPurgeEvents s | .opsCleanupExpired s
  | .opsRedundant s | .storeSettings s => V.asPerson p .canManageAccess ⟨.store, s⟩
  | .groupUpdate g | .groupAccessAdd g | .groupAccessRemove g | .groupConsumerGrant g
  | .groupConsumerRevoke g => V.asPerson p .canManageAccess ⟨.group, g⟩
  | .groupCreate | .groupDelete | .storeGroupSet | .platformAccessAdd | .platformAccessRemove
  | .subjectErase => V.asPerson p .canManageAccess V.cfg.platform
  | .platformEnsurePartitions | .platformDropEventPartitions => V.platformGate p .canManageAccess
  | .tuplesExport s => V.asPerson p .canExport ⟨.store, s⟩
  | .offboard s => V.asPerson p .canGrant ⟨.store, s⟩
  | .scoped s req => V.asPersonScoped p req.cap ⟨.store, s⟩ (some (req.touched (V.estate.managed s)))
  | .modelDSL s | .scenariosSave s => V.asPerson p .canEditModel ⟨.store, s⟩
  | .issuerSave b => V.asPerson p .canManageIssuers (V.issuerSaveObject p b)
  | .issuerDelete _ => V.asPerson p .canManageIssuers V.cfg.platform
  | .signinSave storeGroup => V.asPerson p .canManageIssuers (V.signinSaveObject p storeGroup)
  | .namespaceRename s => V.storeGate p s [.canEditModel, .canManageAccess]
  | .publish s => V.asPerson p .canPublish ⟨.store, s⟩
  | .apply s => V.asPerson p .canRollout ⟨.store, s⟩
  | .createStore => V.platformGate p .canCreateStore
  | .adoptStore s => V.platformGate p .canViewAllStores && !claimed V.cfg V.estate.roles s
  | .deleteStore s | .retireStore s => lifecycleGate V.cfg V.estate.roles p s
  | .test s _ => V.recordTest p s

/-- Where the two gates have the same answer: who may publish from the store may publish to the
registry, who manages the issuers of the group that a binding belongs to manages those of the platform,
and who may run tests may ask what they ask. -/
def SameQuestion : ConsoleRequest → Prop
  | .publish s => V.can p .canPublish ⟨.store, s⟩ → V.can p .canPublish V.registry
  | .issuerDelete issuer => V.can p .canManageIssuers V.cfg.platform ∨
      ∀ cur ∈ V.bindingRow issuer, cur.storeGroup ≠ "" →
        ¬V.can p .canManageIssuers ⟨.group, cur.storeGroup⟩
  | .test s t => V.can p .canRunTests ⟨.store, s⟩ → V.policyAllows p (V.testPolicyFor p s) t
  | _ => True

end ConsoleView

/-! ## The issuers of a group -/

namespace ConsoleView

variable {V : ConsoleView} {p : Principal}

/-- A right on a group rests on a stored tuple of the group: the token carries none. -/
theorem exists_tuple_of_can {relation : Rel} {g : String} (h : V.can p relation ⟨.group, g⟩ = true) :
    ∃ t ∈ V.tuples, t.object = ⟨.group, g⟩ := by
  rw [can, canQ] at h
  split at h
  · cases h
  · obtain ⟨t, ht, hobj⟩ := exists_tuple_of_check h
    refine ⟨t, ?_, hobj⟩
    rcases List.mem_append.mp ht with ht | ht
    · exact ht
    · -- the token names the person on teams, and on stores
      exfalso
      have hteam : ∀ u ∈ p.memberships, u.object.typ = .team := by
        intro u hu
        obtain ⟨team, -, rfl⟩ := List.mem_map.mp hu
        rfl
      rw [Principal.tuplesFor] at ht
      split at ht
      · have := hteam t ht
        rw [hobj] at this
        cases this
      · rcases List.mem_append.mp ht with ht | ht
        · have := hteam t ht
          rw [hobj] at this
          cases this
        · obtain ⟨s, -, rfl⟩ := List.mem_map.mp ht
          cases hobj

/-- **The reverse search finds the groups on which a question is answered with yes.** -/
theorem mem_groupsReaching {relation : Rel} {g : String} :
    g ∈ V.groupsReaching p relation ↔ V.can p relation ⟨.group, g⟩ = true := by
  rw [groupsReaching, List.mem_filter, List.mem_dedup, List.mem_filterMap]
  constructor
  · exact And.right
  · intro h
    obtain ⟨t, ht, hobj⟩ := exists_tuple_of_can h
    refine ⟨⟨t, ht, ?_⟩, h⟩
    rw [hobj]
    rfl

/-- The platform manages the issuers without a search. -/
theorem issuerManager_of_platform (h : V.can p .canManageIssuers V.cfg.platform = true) :
    V.issuerManager p = some (true, []) := by
  simp [issuerManager, h]

/-- Anyone else manages those of the groups that the search finds. -/
theorem issuerManager_of_not_platform (h : V.can p .canManageIssuers V.cfg.platform = false) :
    V.issuerManager p = if V.groupsReaching p .canManageIssuers = [] then none
      else some (false, V.groupsReaching p .canManageIssuers) := by
  simp [issuerManager, h, List.isEmpty_iff]

/-- Who manages the issuers of a group gets past `issuerManager`. -/
theorem issuerManager_of_group {g : String} (h : V.can p .canManageIssuers V.cfg.platform = false)
    (hg : V.can p .canManageIssuers ⟨.group, g⟩ = true) :
    V.issuerManager p = some (false, V.groupsReaching p .canManageIssuers) := by
  rw [issuerManager_of_not_platform h, if_neg (List.ne_nil_of_mem (mem_groupsReaching.mpr hg))]

/-- The object of a binding that somebody else than the platform sets is a group. -/
theorem exists_group_of_issuerObject {cur : Option BindingRow} {b : BindingRow} {object : Obj}
    (h : V.can p .canManageIssuers V.cfg.platform = false)
    (hobj : issuerObject V.cfg V.tuples p cur b = .ok object) : ∃ g, object = ⟨.group, g⟩ := by
  unfold issuerObject at hobj
  rw [if_neg (by rw [show canQ V.cfg V.tuples p _ _ = false from h]; exact Bool.false_ne_true)] at hobj
  cases cur with
  | some row =>
    simp only at hobj
    split at hobj
    · cases hobj
    · exact ⟨_, (Except.ok.inj hobj).symm⟩
  | none =>
    simp only at hobj
    split at hobj
    · cases hobj
    · exact ⟨_, (Except.ok.inj hobj).symm⟩

/-- Both gates of a saved binding ask about the object that the handler took. -/
theorem issuerSaveChecks_eq (b : BindingRow) :
    V.issuerSaveChecks p b = V.asPerson p .canManageIssuers (V.issuerSaveObject p b) := by
  show _ = V.can p .canManageIssuers (V.issuerSaveObject p b)
  unfold issuerSaveChecks issuerSaveObject
  cases hplat : V.can p .canManageIssuers V.cfg.platform with
  | true =>
    have hobj : issuerObject V.cfg V.tuples p (V.bindingRow b.issuer) b = .ok V.cfg.platform :=
      if_pos hplat
    rw [issuerManager_of_platform hplat, hobj]
  | false =>
    cases hobj : issuerObject V.cfg V.tuples p (V.bindingRow b.issuer) b with
    | error e =>
      -- refused without an object: the platform it starts from says no as well
      simp only [hplat]
      split <;> rfl
    | ok object =>
      obtain ⟨g, rfl⟩ := exists_group_of_issuerObject hplat hobj
      cases hg : V.can p .canManageIssuers ⟨.group, g⟩ with
      | true =>
        rw [issuerManager_of_group hplat hg]
        exact hg
      | false =>
        simp only [hg]
        split <;> rfl

/-- So do those of a client that the console is registered as. -/
theorem signinSaveChecks_eq (storeGroup : String) :
    V.signinSaveChecks p storeGroup =
      V.asPerson p .canManageIssuers (V.signinSaveObject p storeGroup) := by
  show _ = V.can p .canManageIssuers (V.signinSaveObject p storeGroup)
  unfold signinSaveChecks signinSaveObject
  cases hplat : V.can p .canManageIssuers V.cfg.platform with
  | true =>
    rw [issuerManager_of_platform hplat, if_pos (.inl rfl), hplat]
    rfl
  | false =>
    by_cases hempty : storeGroup = ""
    · rw [if_pos (.inr hempty), hplat, issuerManager_of_not_platform hplat]
      split
      · rfl
      · rename_i hsome
        split at hsome
        · cases hsome
        · obtain ⟨rfl, -⟩ := Prod.mk.inj (Option.some.inj hsome)
          simp [hempty]
    · rw [if_neg (by simp [hempty])]
      cases hg : V.can p .canManageIssuers ⟨.group, storeGroup⟩ with
      | true =>
        rw [issuerManager_of_group hplat hg]
        simp [hempty]
      | false =>
        rw [issuerManager_of_not_platform hplat]
        split
        · rfl
        · rename_i hsome
          split at hsome
          · cases hsome
          · obtain ⟨rfl, -⟩ := Prod.mk.inj (Option.some.inj hsome)
            simp

/-- A binding is removed by the platform, or by whoever manages the issuers of its group. -/
theorem issuerDeleteChecks_iff {issuer : String} :
    V.issuerDeleteChecks p issuer = true ↔ V.can p .canManageIssuers V.cfg.platform = true ∨
      ∃ cur ∈ V.bindingRow issuer, cur.storeGroup ≠ "" ∧
        V.can p .canManageIssuers ⟨.group, cur.storeGroup⟩ = true := by
  unfold issuerDeleteChecks
  cases hplat : V.can p .canManageIssuers V.cfg.platform with
  | true =>
    rw [issuerManager_of_platform hplat]
    simp
  | false =>
    rw [issuerManager_of_not_platform hplat]
    by_cases hnil : V.groupsReaching p .canManageIssuers = []
    · have hno : ∀ g, V.can p .canManageIssuers ⟨.group, g⟩ ≠ true := by
        intro g hg
        have := mem_groupsReaching.mpr hg
        rw [hnil] at this
        cases this
      simp [hnil, hno]
    · simp [hnil, mem_groupsReaching, Option.any_eq_true]

/-! ## The two gates -/

theorem publish_agree_iff {s : String} :
    (V.authorize p (.publish s) = true ↔ V.checks p (.publish s) = true) ↔
      V.SameQuestion p (.publish s) := by
  show (V.can p .canPublish ⟨.store, s⟩ = true ↔
    (V.can p .canPublish ⟨.store, s⟩ && V.can p .canPublish V.registry) = true) ↔ _
  rw [Bool.and_eq_true, iff_self_and]
  exact Iff.rfl

theorem issuerDelete_agree_iff {issuer : String} :
    (V.authorize p (.issuerDelete issuer) = true ↔ V.checks p (.issuerDelete issuer) = true) ↔
      V.SameQuestion p (.issuerDelete issuer) := by
  show (V.can p .canManageIssuers V.cfg.platform = true ↔ V.issuerDeleteChecks p issuer = true) ↔ _
  rw [issuerDeleteChecks_iff, SameQuestion]
  constructor
  · intro h
    refine or_iff_not_imp_left.mpr fun hplat cur hcur hne hg => ?_
    exact hplat (h.mpr (.inr ⟨cur, hcur, hne, hg⟩))
  · rintro (hplat | hnone)
    · exact iff_of_true hplat (.inl hplat)
    · refine ⟨.inl, ?_⟩
      rintro (hplat | ⟨cur, hcur, hne, hg⟩)
      · exact hplat
      · exact absurd hg (hnone cur hcur hne)

theorem test_agree_iff {s : String} {t : TestRequest} :
    (V.authorize p (.test s t) = true ↔ V.checks p (.test s t) = true) ↔
      V.SameQuestion p (.test s t) := by
  show (V.can p .canRunTests ⟨.store, s⟩ = true ↔
    (V.can p .canRunTests ⟨.store, s⟩ && V.policyAllows p (V.testPolicyFor p s) t) = true) ↔ _
  rw [Bool.and_eq_true, iff_self_and]
  exact Iff.rfl

/-- **The two gates of a request agree iff it asks them the same.** -/
theorem gates_agree_iff (V : ConsoleView) (p : Principal) (r : ConsoleRequest) :
    (V.authorize p r = true ↔ V.checks p r = true) ↔ V.SameQuestion p r := by
  cases r with
  | publish s => exact publish_agree_iff
  | issuerDelete issuer => exact issuerDelete_agree_iff
  | test s t => exact test_agree_iff
  | issuerSave b => exact iff_of_true (by rw [checks, issuerSaveChecks_eq, authorize]) trivial
  | signinSave g => exact iff_of_true (by rw [checks, signinSaveChecks_eq, authorize]) trivial
  | namespaceRename s =>
    refine iff_of_true ?_ trivial
    rw [authorize, checks, storeGate, List.all_cons, List.all_cons, List.all_nil, Bool.and_true]
  | _ => exact iff_of_true Iff.rfl trivial

/-- A publisher of a store without a right on the registry, whoever manages the issuers of a group, and
a tester without the right to search. -/
def shopView : ConsoleView where
  cfg := ⟨"console", "main", false, 4⟩
  registryId := "main"
  selfSubjectTypes := []
  estate := {
    roles := {
      tuples := ⟨[⟨⟨.user, "erin", none⟩, .publisher, ⟨.store, "shop"⟩⟩,
        ⟨⟨.user, "carol", none⟩, .issuerAdmin, ⟨.group, "acme"⟩⟩,
        ⟨⟨.user, "tess", none⟩, .tester, ⟨.store, "shop"⟩⟩], by decide⟩
      stores := [("shop", "acme")]
      groups := ["acme"]
      issuerGroups := ["acme"] }
    managed := fun _ => .empty }
  bindings := ⟨[⟨"https://id.acme.example", "acme", "https://id.acme.example/jwks", none, ""⟩], by decide⟩

/-- Someone who signs in with no teams. -/
def plainUser (id : String) : Principal := ⟨.user, id, [], none, "", false⟩

/-- **The two gates disagree** on what the group removes, on what is published and on a search. -/
theorem gates_disagree :
    (shopView.checks (plainUser "carol") (.issuerDelete "https://id.acme.example") = true ∧
      shopView.authorize (plainUser "carol") (.issuerDelete "https://id.acme.example") = false) ∧
    (shopView.checks (plainUser "erin") (.publish "shop") = false ∧
      shopView.authorize (plainUser "erin") (.publish "shop") = true) ∧
    shopView.checks (plainUser "tess") (.test "shop" .search) = false ∧
      shopView.authorize (plainUser "tess") (.test "shop" .search) = true := by
  decide +kernel

end ConsoleView

/-! ## The changes of roles -/

/-- The request of a change of roles. -/
def RoleChange.request : RoleChange → ConsoleRequest
  | accessAdd _ s _ => .accessAdd s
  | accessRemove _ s _ => .accessRemove s
  | namespaceAccessAdd _ s _ _ => .namespaceAccessAdd s
  | namespaceAccessRemove _ s _ _ => .namespaceAccessRemove s
  | namespaceRename _ s _ _ => .namespaceRename s
  | groupAccessAdd _ g _ => .groupAccessAdd g
  | groupAccessRemove _ g _ => .groupAccessRemove g
  | platformAccessAdd .. => .platformAccessAdd
  | platformAccessRemove .. => .platformAccessRemove
  | groupCreate .. => .groupCreate
  | groupDelete .. => .groupDelete
  | storeGroupSet .. => .storeGroupSet
  | createStore .. => .createStore
  | adoptStore _ s => .adoptStore s
  | deleteStore _ s _ => .deleteStore s

section Changes

variable {V : ConsoleView}

/-- The transaction of a change of roles asks what its gate says. -/
theorem authorize_request (c : RoleChange) :
    V.authorize c.person c.request = c.gate V.cfg V.estate.roles := by
  cases c with
  | namespaceRename p s ns renamed =>
    show V.storeGate p s [.canEditModel, .canManageAccess] = _
    rw [ConsoleView.storeGate, List.all_cons, List.all_cons, List.all_nil, Bool.and_true]
    rfl
  | _ => rfl

/-- The handler asks it too. -/
theorem checks_request (c : RoleChange) :
    V.checks c.person c.request = c.gate V.cfg V.estate.roles := by
  cases c <;> rfl

/-- **A change of roles that goes through has passed both gates.** -/
theorem gates_of_handle {c : RoleChange} {st : Roles} (h : handle V.cfg V.estate.roles c = .ok st) :
    V.checks c.person c.request = true ∧ V.authorize c.person c.request = true := by
  have hgate : c.gate V.cfg V.estate.roles = true :=
    (handle_eq_ok_iff (w := V.estate.at "")).mp h |>.1.2.1
  exact ⟨(checks_request c).trans hgate, (authorize_request c).trans hgate⟩

/-- On a request about the rows of a store, the transaction asks for the capability in the state it is
in. -/
theorem authorize_scoped_iff {p : Principal} {s : String} {req : StoreRequest} :
    V.authorize p (.scoped s req) = true ↔ Authorised V.cfg V.estate (.store p s req) :=
  Iff.rfl

end Changes

end PgAuthz.Console
