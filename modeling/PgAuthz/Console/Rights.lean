import Mathlib.Data.List.Basic
import Mathlib.Data.Set.Basic

/-!
# Rights in the console's own store

The console keeps its roles as tuples of a store of its own and asks that store before everything it
does. A question is answered over the stored tuples together with the memberships that the token of
the person carries, and for the local admin with a role on the store of the request.

## Main definitions

* `Typ`, `Rel`, `consoleModel`: the shipped model of the console's store
* `RoleTuple`: a tuple of it
* `check`: a question to it, up to the depth that the engine resolves
* `Principal`, `canQ`: the person of a request, and what they may do

## Main results

* `exists_tuple_of_check`: a right on an object rests on a tuple of the object
* `check_mono`: a right lasts while the tuples that it can rest on do
* `check_congr`: a question depends only on the tuples of the objects it can reach
-/

namespace PgAuthz.Console

/-! ## The model -/

/-- The types of the console's store. -/
inductive Typ
  | user
  | serviceAccount
  | team
  | platform
  | registry
  | group
  | store
  | «namespace»
deriving DecidableEq, Repr

/-- The relations of the console's store. -/
inductive Rel
  | member
  | admin
  | issuerAdmin
  | platform
  | group
  | owner
  | author
  | publisher
  | sharer
  | tester
  | supporter
  | auditor
  | exporter
  | viewer
  | canManageIssuers
  | canViewHealth
  | canCreateStore
  | canViewAllStores
  | canView
  | canRunTests
  | canEditModel
  | canPublish
  | canRollout
  | canGrant
  | canViewAudit
  | canExport
  | canViewDecisions
  | canManageAccess
  | canTestOthers
  | canTestExplainFull
  | canTestSearch
  | canTestHistory
  | store
  | «namespace»
deriving DecidableEq, Repr

/-- The name of a type. -/
def Typ.name : Typ → String
  | user => "user"
  | serviceAccount => "service_account"
  | team => "team"
  | platform => "platform"
  | registry => "registry"
  | group => "group"
  | store => "store"
  | «namespace» => "namespace"

/-- The name of a relation. -/
def Rel.name : Rel → String
  | member => "member"
  | admin => "admin"
  | issuerAdmin => "issuer_admin"
  | platform => "platform"
  | group => "group"
  | owner => "owner"
  | author => "author"
  | publisher => "publisher"
  | sharer => "sharer"
  | tester => "tester"
  | supporter => "supporter"
  | auditor => "auditor"
  | exporter => "exporter"
  | viewer => "viewer"
  | canManageIssuers => "can_manage_issuers"
  | canViewHealth => "can_view_health"
  | canCreateStore => "can_create_store"
  | canViewAllStores => "can_view_all_stores"
  | canView => "can_view"
  | canRunTests => "can_run_tests"
  | canEditModel => "can_edit_model"
  | canPublish => "can_publish"
  | canRollout => "can_rollout"
  | canGrant => "can_grant"
  | canViewAudit => "can_view_audit"
  | canExport => "can_export"
  | canViewDecisions => "can_view_decisions"
  | canManageAccess => "can_manage_access"
  | canTestOthers => "can_test_others"
  | canTestExplainFull => "can_test_explain_full"
  | canTestSearch => "can_test_search"
  | canTestHistory => "can_test_history"
  | store => "store"
  | «namespace» => "namespace"

/-- What a rule of the model asks. -/
inductive ModelRule
  | direct
  | computed (relation : Rel)
  | ttu (tupleset computed : Rel)
deriving DecidableEq, Repr

/-- Rules of one type. -/
def rulesFor (typ : Typ) (relations : List Rel) (rule : Rel → ModelRule) :
    List (Typ × Rel × ModelRule) :=
  relations.map fun r => (typ, r, rule r)

/-- A relation that is computed from several others. -/
def computedFrom (typ : Typ) (relation : Rel) (roles : List Rel) : List (Typ × Rel × ModelRule) :=
  roles.map fun r => (typ, relation, .computed r)

/-- The rules of `platform` and `team`. -/
def platformRules : List (Typ × Rel × ModelRule) :=
  rulesFor .team [.member] (fun _ => .direct) ++
  rulesFor .platform [.admin, .issuerAdmin] (fun _ => .direct) ++
  rulesFor .platform [.canManageIssuers, .canViewHealth, .canCreateStore, .canViewAllStores,
    .canManageAccess] (fun _ => .computed .admin) ++
  computedFrom .platform .canManageIssuers [.issuerAdmin]

/-- The rules of `group`. -/
def groupRules : List (Typ × Rel × ModelRule) :=
  rulesFor .group [.platform, .admin, .issuerAdmin] (fun _ => .direct) ++
  rulesFor .group [.canView, .canCreateStore, .canManageAccess, .canManageIssuers]
    (fun _ => .computed .admin) ++
  rulesFor .group [.canView, .canCreateStore, .canManageAccess, .canManageIssuers]
    (fun _ => .ttu .platform .admin) ++
  computedFrom .group .canManageIssuers [.issuerAdmin] ++
  rulesFor .group [.author, .publisher, .sharer, .tester, .supporter, .auditor, .exporter, .viewer]
    (fun _ => .direct) ++
  computedFrom .group .canView
    [.viewer, .tester, .supporter, .sharer, .author, .publisher, .auditor, .exporter] ++
  computedFrom .group .canRunTests [.tester, .supporter, .author, .publisher, .admin] ++
  computedFrom .group .canTestOthers [.supporter, .author, .publisher, .admin] ++
  computedFrom .group .canTestExplainFull [.supporter, .author, .publisher, .admin] ++
  computedFrom .group .canTestSearch [.author, .publisher, .admin] ++
  computedFrom .group .canTestHistory [.auditor, .author, .publisher, .admin] ++
  computedFrom .group .canEditModel [.author, .admin] ++
  computedFrom .group .canPublish [.publisher, .admin] ++
  computedFrom .group .canRollout [.publisher, .admin] ++
  computedFrom .group .canGrant [.sharer, .admin] ++
  computedFrom .group .canViewAudit [.auditor, .admin] ++
  computedFrom .group .canExport [.exporter, .admin] ++
  computedFrom .group .canViewDecisions [.auditor, .publisher, .admin]

/-- The rules of `registry`. -/
def registryRules : List (Typ × Rel × ModelRule) :=
  rulesFor .registry [.platform, .publisher, .viewer] (fun _ => .direct) ++
  computedFrom .registry .canPublish [.publisher] ++
  rulesFor .registry [.canPublish, .canView] (fun _ => .ttu .platform .admin) ++
  computedFrom .registry .canView [.viewer, .publisher]

/-- The rules of `store`. -/
def storeRules : List (Typ × Rel × ModelRule) :=
  rulesFor .store [.platform, .group] (fun _ => .direct) ++
  rulesFor .store
    [.owner, .author, .publisher, .sharer, .tester, .supporter, .auditor, .exporter, .viewer]
    (fun _ => .direct) ++
  computedFrom .store .canView
    [.viewer, .tester, .supporter, .sharer, .author, .publisher, .auditor, .exporter, .owner] ++
  rulesFor .store [.canView] (fun _ => .ttu .platform .admin) ++
  rulesFor .store [.canView] (fun _ => .ttu .group .admin) ++
  rulesFor .store [.namespace] (fun _ => .direct) ++
  rulesFor .store [.canView] (fun _ => .ttu .namespace .canView) ++
  computedFrom .store .canRunTests [.tester, .supporter, .author, .publisher, .owner] ++
  computedFrom .store .canTestOthers [.supporter, .author, .publisher, .owner] ++
  computedFrom .store .canTestExplainFull [.supporter, .author, .publisher, .owner] ++
  computedFrom .store .canTestSearch [.author, .publisher, .owner] ++
  computedFrom .store .canTestHistory [.auditor, .author, .publisher, .owner] ++
  computedFrom .store .canEditModel [.author, .owner] ++
  computedFrom .store .canPublish [.publisher, .owner] ++
  computedFrom .store .canRollout [.publisher, .owner] ++
  computedFrom .store .canGrant [.sharer, .owner] ++
  computedFrom .store .canViewAudit [.auditor, .owner] ++
  computedFrom .store .canExport [.exporter, .owner] ++
  computedFrom .store .canViewDecisions [.auditor, .publisher, .owner] ++
  computedFrom .store .canManageAccess [.owner] ++
  rulesFor .store [.canManageAccess] (fun _ => .ttu .platform .admin) ++
  rulesFor .store [.canManageAccess] (fun _ => .ttu .group .admin) ++
  rulesFor .store [.canView, .canRunTests, .canTestOthers, .canTestExplainFull, .canTestSearch,
    .canTestHistory, .canEditModel, .canPublish, .canRollout, .canGrant, .canViewAudit, .canExport,
    .canViewDecisions] (fun c => .ttu .group c)

/-- The rules of `namespace`. -/
def namespaceRules : List (Typ × Rel × ModelRule) :=
  rulesFor .namespace [.store, .author, .viewer] (fun _ => .direct) ++
  computedFrom .namespace .canView [.viewer, .author] ++
  rulesFor .namespace [.canView] (fun _ => .ttu .store .canView) ++
  computedFrom .namespace .canEditModel [.author] ++
  rulesFor .namespace [.canEditModel] (fun _ => .ttu .store .canEditModel) ++
  computedFrom .namespace .canGrant [.author] ++
  rulesFor .namespace [.canGrant] (fun _ => .ttu .store .canGrant)

/-- The shipped model of the console's store. All its rules are alternatives. -/
def consoleModel : List (Typ × Rel × ModelRule) :=
  platformRules ++ groupRules ++ registryRules ++ storeRules ++ namespaceRules

/-- The rules of a relation. -/
def rulesOf (typ : Typ) (relation : Rel) : List ModelRule :=
  consoleModel.filterMap fun m => if m.1 = typ ∧ m.2.1 = relation then some m.2.2 else none

/-- `min_direct` of a relation: a store keeps an owner, the platform an admin. -/
def minDirect : Typ → Rel → Option ℕ
  | .platform, .admin => some 1
  | .store, .owner => some 1
  | _, _ => none

/-! ## Tuples -/

/-- An object of the console's store. -/
structure Obj where
  typ : Typ
  id : String
deriving DecidableEq, Repr

/-- The user of a tuple: a subject, or with a relation everyone who has it on the object. -/
structure User where
  typ : Typ
  id : String
  relation : Option Rel
deriving DecidableEq, Repr

/-- The object that a user names. -/
def User.obj (u : User) : Obj := ⟨u.typ, u.id⟩

/-- A tuple of the console's store that the row policy shows. The model has no facet for a
condition or a wildcard. -/
structure RoleTuple where
  user : User
  relation : Rel
  object : Obj
deriving DecidableEq, Repr

/-- A link to another object. -/
def RoleTuple.link (target : Obj) (relation : Rel) (object : Obj) : RoleTuple :=
  ⟨⟨target.typ, target.id, none⟩, relation, object⟩

/-- The rows of the console's store. A row is unique. -/
structure RoleTable where
  rows : List RoleTuple
  nodup : rows.Nodup
deriving DecidableEq

/-- The tuple gives the relation on the object. -/
def RoleTuple.gives (t : RoleTuple) (relation : Rel) (object : Obj) : Bool :=
  t.relation = relation ∧ t.object = object

/-! ## Questions -/

/-- A question to the console's store: whether `who` has the relation on the object, over the
tuples `T`. The engine resolves up to a depth and refuses beyond it. -/
def check (T : List RoleTuple) (who : User) : ℕ → Rel → Obj → Bool
  | 0, _, _ => false
  | depth + 1, relation, object => (rulesOf object.typ relation).any fun
    | .direct => T.any fun t => t.gives relation object &&
        (t.user = who || t.user.relation.any fun r => check T who depth r t.user.obj)
    | .computed r => check T who depth r object
    | .ttu tupleset r => T.any fun t => t.gives tupleset object && t.user.relation.isNone &&
        check T who depth r t.user.obj

/-- What a right comes from: a direct tuple, a userset, another relation of the object, or a
relation of an object it is linked to. -/
theorem check_succ {T : List RoleTuple} {who : User} {depth : ℕ} {relation : Rel} {object : Obj} :
    check T who (depth + 1) relation object = true ↔
      (.direct ∈ rulesOf object.typ relation ∧ ∃ t ∈ T, t.relation = relation ∧ t.object = object ∧
        (t.user = who ∨ ∃ r ∈ t.user.relation, check T who depth r t.user.obj = true)) ∨
      (∃ r, .computed r ∈ rulesOf object.typ relation ∧ check T who depth r object = true) ∨
      ∃ tupleset r, .ttu tupleset r ∈ rulesOf object.typ relation ∧ ∃ t ∈ T,
        t.relation = tupleset ∧ t.object = object ∧ t.user.relation = none ∧
          check T who depth r t.user.obj = true := by
  rw [check, List.any_eq_true]
  constructor
  · rintro ⟨rule, hrule, h⟩
    match rule with
    | .direct =>
      simp only [List.any_eq_true, RoleTuple.gives, Bool.and_eq_true, Bool.or_eq_true,
        decide_eq_true_eq, Option.any_eq_true] at h
      obtain ⟨t, ht, ⟨hr, ho⟩, h⟩ := h
      exact .inl ⟨hrule, t, ht, hr, ho, h⟩
    | .computed r => exact .inr (.inl ⟨r, hrule, h⟩)
    | .ttu tupleset r =>
      simp only [List.any_eq_true, RoleTuple.gives, Bool.and_eq_true, decide_eq_true_eq,
        Option.isNone_iff_eq_none] at h
      obtain ⟨t, ht, ⟨⟨hr, ho⟩, hn⟩, h⟩ := h
      exact .inr (.inr ⟨tupleset, r, hrule, t, ht, hr, ho, hn, h⟩)
  · rintro (⟨hrule, t, ht, hr, ho, h⟩ | ⟨r, hrule, h⟩ | ⟨tupleset, r, hrule, t, ht, hr, ho, hn, h⟩)
    · refine ⟨.direct, hrule, ?_⟩
      simp only [List.any_eq_true, RoleTuple.gives, Bool.and_eq_true, Bool.or_eq_true,
        decide_eq_true_eq, Option.any_eq_true]
      exact ⟨t, ht, ⟨hr, ho⟩, h⟩
    · exact ⟨.computed r, hrule, h⟩
    · refine ⟨.ttu tupleset r, hrule, ?_⟩
      simp only [List.any_eq_true, RoleTuple.gives, Bool.and_eq_true, decide_eq_true_eq,
        Option.isNone_iff_eq_none]
      exact ⟨t, ht, ⟨⟨hr, ho⟩, hn⟩, h⟩

/-- **A right on an object rests on a tuple of the object.** -/
theorem exists_tuple_of_check {T : List RoleTuple} {who : User} {depth : ℕ} {relation : Rel}
    {object : Obj} (h : check T who depth relation object = true) : ∃ t ∈ T, t.object = object := by
  induction depth generalizing relation with
  | zero => cases h
  | succ depth ih =>
    obtain ⟨-, t, ht, -, ho, -⟩ | ⟨r, -, h⟩ | ⟨_, _, -, t, ht, -, ho, -⟩ := check_succ.mp h
    · exact ⟨t, ht, ho⟩
    · exact ih h
    · exact ⟨t, ht, ho⟩

/-- The relations through which a right passes to another object. -/
def Rel.isLink : Rel → Bool
  | .platform | .group | .store | .namespace => true
  | _ => false

theorem isLink_of_ttu {typ : Typ} {relation tupleset r : Rel}
    (h : .ttu tupleset r ∈ rulesOf typ relation) : tupleset.isLink = true := by
  have hall : ∀ m ∈ consoleModel, ∀ l c, m.2.2 = .ttu l c → l.isLink = true := by
    intro m hm l c hmc
    have hdec : (consoleModel.all fun m => match m.2.2 with
      | .ttu l _ => l.isLink
      | _ => true) = true := by decide
    have := List.all_eq_true.mp hdec m hm
    rw [hmc] at this
    exact this
  rw [rulesOf, List.mem_filterMap] at h
  obtain ⟨m, hm, h⟩ := h
  split at h
  · exact hall m hm _ _ (Option.some.inj h)
  · cases h

/-- The objects of a set reach no object outside of it. -/
def Closed (T : List RoleTuple) (S : Set Obj) : Prop :=
  ∀ t ∈ T, t.object ∈ S → (t.relation.isLink = true ∨ t.user.relation.isSome) → t.user.obj ∈ S

/-- The tuple can give the user a right: it is a link, or it names a userset or them. -/
def RoleTuple.Concerns (t : RoleTuple) (who : User) : Prop :=
  t.relation.isLink = true ∨ t.user.relation.isSome ∨ t.user = who

instance (t : RoleTuple) (who : User) : Decidable (t.Concerns who) :=
  inferInstanceAs (Decidable (_ ∨ _ ∨ _))

/-- A right lasts while the tuples that it can rest on do. -/
theorem check_mono {T T' : List RoleTuple} {S : Set Obj} {who : User} (hS : Closed T S)
    (hT : ∀ t ∈ T, t.object ∈ S → t.Concerns who → t ∈ T') {depth : ℕ} {relation : Rel} {object : Obj}
    (ho : object ∈ S) (h : check T who depth relation object = true) :
    check T' who depth relation object = true := by
  induction depth generalizing relation object with
  | zero => cases h
  | succ depth ih =>
    rw [check_succ] at h ⊢
    obtain ⟨hrule, t, ht, hr, rfl, h⟩ | ⟨r, hrule, h⟩ | ⟨l, r, hrule, t, ht, hr, rfl, hn, h⟩ := h
    · have hconcerns : t.Concerns who := by
        rcases h with rfl | ⟨r, hur, -⟩
        · exact .inr (.inr rfl)
        · exact .inr (.inl (Option.isSome_of_mem hur))
      refine .inl ⟨hrule, t, hT t ht ho hconcerns, hr, rfl, h.imp_right ?_⟩
      rintro ⟨r, hur, h⟩
      exact ⟨r, hur, ih (hS t ht ho (.inr (Option.isSome_of_mem hur))) h⟩
    · exact .inr (.inl ⟨r, hrule, ih ho h⟩)
    · -- the object at the other end of the link is one of the set
      have hlink : t.relation.isLink = true := hr ▸ isLink_of_ttu hrule
      exact .inr (.inr ⟨l, r, hrule, t, hT t ht ho (.inl hlink), hr, rfl, hn,
        ih (hS t ht ho (.inl hlink)) h⟩)

/-- **A question depends only on the tuples of the objects it can reach.** -/
theorem check_congr {T T' : List RoleTuple} {S : Set Obj} (hS : Closed T S)
    (hT : ∀ t, t.object ∈ S → (t ∈ T ↔ t ∈ T')) (who : User) (depth : ℕ) {relation : Rel}
    {object : Obj} (ho : object ∈ S) :
    check T who depth relation object = check T' who depth relation object := by
  have hS' : Closed T' S := fun t ht hobj => hS t ((hT t hobj).mpr ht) hobj
  rw [Bool.eq_iff_iff]
  constructor
  · apply check_mono hS (fun t ht hobj _ => (hT t hobj).mp ht) ho
  · apply check_mono hS' (fun t ht hobj _ => (hT t hobj).mpr ht) ho

/-! ## The person of a request -/

/-- What the console reads of its own settings: the console's own store, the platform object,
whether its database has a decision log, and the depth that the engine resolves. -/
structure Config where
  consoleStore : String
  platformId : String
  decisionLog : Bool
  maxDepth : ℕ

/-- The platform object. -/
def Config.platform (cfg : Config) : Obj := ⟨.platform, cfg.platformId⟩

/-- The signed-in person: their teams, for the local admin the role on every store and the store of
the request, and whether the token is closed to tests. -/
structure Principal where
  typ : Typ
  id : String
  teams : List String
  storeRole : Option Rel
  pathStore : String
  noTesting : Bool
deriving DecidableEq, Repr

/-- The person as the user of a tuple. -/
def Principal.user (p : Principal) : User := ⟨p.typ, p.id, none⟩

/-- `ctxTuples`: the memberships. -/
def Principal.memberships (p : Principal) : List RoleTuple :=
  p.teams.map fun t => ⟨p.user, .member, ⟨.team, t⟩⟩

/-- `tuplesFor` one object: the memberships, and the role of the local admin on the store that is
asked about and on that of the request. -/
def Principal.tuplesFor (p : Principal) (object : Obj) : List RoleTuple :=
  match p.storeRole with
  | none => p.memberships
  | some role =>
    let asked := if object.typ = .store then [object.id] else []
    let path := if p.pathStore ≠ "" ∧ p.pathStore ∉ asked then [p.pathStore] else []
    p.memberships ++ (asked ++ path).map fun s => ⟨p.user, role, ⟨.store, s⟩⟩

/-- `testingRelations`. -/
def Rel.isTesting : Rel → Bool
  | .canRunTests | .canTestOthers | .canTestExplainFull | .canTestSearch | .canTestHistory => true
  | _ => false

/-- `canQ`: one question of the person to the console's store. -/
def canQ (cfg : Config) (T : List RoleTuple) (p : Principal) (relation : Rel) (object : Obj) : Bool :=
  if p.noTesting && relation.isTesting then false
  else check (T ++ p.tuplesFor object) p.user cfg.maxDepth relation object

/-- A person without a local role has no right on an object other than a team that has no tuple. -/
theorem canQ_eq_false {cfg : Config} {T : List RoleTuple} {p : Principal} {object : Obj}
    (relation : Rel) (hrole : p.storeRole = none) (hteam : object.typ ≠ .team)
    (hT : ∀ t ∈ T, t.object ≠ object) : canQ cfg T p relation object = false := by
  rw [canQ]
  split
  · rfl
  · rw [← Bool.not_eq_true]
    intro h
    obtain ⟨t, ht, rfl⟩ := exists_tuple_of_check h
    rcases List.mem_append.mp ht with ht | ht
    · exact hT t ht rfl
    · rw [Principal.tuplesFor, hrole, Principal.memberships] at ht
      obtain ⟨team, -, rfl⟩ := List.mem_map.mp ht
      exact hteam rfl

end PgAuthz.Console
