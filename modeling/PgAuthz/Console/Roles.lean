import Mathlib.Data.List.Infix
import Mathlib.Data.List.Nodup
import PgAuthz.Console.Rights

/-!
# Changing the roles

The requests of the console that write tuples of its own store: roles on stores, namespaces, groups
and the platform, the links of namespaces, groups and stores, and creating, adopting and deleting a
store. Each runs in one transaction that first asks for the capability it needs; a failing statement
takes back the whole transaction.

## Main definitions

* `writeTuple`, `deleteTuple`: the engine on one tuple, with facets and floors
* `Roles`: the tuples, and the stores and groups of the engine
* `RoleChange`, `handle`: the requests and their handlers

## Main results

* `written_of_mem`: a tuple that is new after a request is one that the request writes
* `object_of_written`: where a request writes, and what it asked for
-/

namespace PgAuthz.Console

/-! ## The engine on one tuple -/

/-- Why a request fails: a bad request, a capability that is missing, or an error of the engine. -/
inductive Refusal
  | badRequest (what : String)
  | forbidden (required : Rel) (object : Obj)
  | conflict (what : String)
  | wildcard
  | restriction (relation : Rel) (object : Obj)
  | floor (relation : Rel) (object : Obj)
  | lastOwner
  | unknownStore
  | storeExists
  | unknownGroup
  | groupInUse
deriving DecidableEq, Repr

/-- The type restrictions of a relation: the users that its tuples may name. -/
def facets : Typ → Rel → List (Typ × Option Rel)
  | _, .platform => [(.platform, none)]
  | .store, .group => [(.group, none)]
  | .store, .namespace => [(.namespace, none)]
  | .namespace, .store => [(.store, none)]
  | .team, .member => [(.user, none), (.serviceAccount, none)]
  | typ, relation =>
    if .direct ∈ rulesOf typ relation then
      [(.user, none), (.serviceAccount, none), (.team, some .member)]
    else []

/-- The table with a row, once. -/
def RoleTable.insert (T : RoleTable) (t : RoleTuple) : RoleTable where
  rows := if t ∈ T.rows then T.rows else T.rows ++ [t]
  nodup := by
    split
    · exact T.nodup
    · rename_i ht
      exact List.nodup_append_comm.mpr (List.nodup_cons.mpr ⟨ht, T.nodup⟩)

/-- The table without a row. -/
def RoleTable.erase (T : RoleTable) (t : RoleTuple) : RoleTable where
  rows := T.rows.filter (· ≠ t)
  nodup := T.nodup.filter _

instance instLawfulBEqFacet : LawfulBEq (Typ × Option Rel) := inferInstance

/-- `write_tuple`. No facet allows a wildcard, and no rule an object wildcard. -/
def writeTuple (T : RoleTable) (t : RoleTuple) : Except Refusal RoleTable :=
  let fs := facets t.object.typ t.relation
  if t.object.id = "*" ∨ (t.user.id = "*" ∧ t.user.relation.isSome) then .error .wildcard
  else if fs ≠ [] ∧ (t.user.id = "*" ∨ (t.user.typ, t.user.relation) ∉ fs) then
    .error (.restriction t.relation t.object)
  else .ok (T.insert t)

/-- `_check_relation_floor` for one tuple: deleting it would leave too few of the relation. -/
def belowFloor (T : RoleTable) (t : RoleTuple) : Bool :=
  (minDirect t.object.typ t.relation).any fun least =>
    t ∈ T.rows && (T.rows.countP fun u => u.gives t.relation t.object) - 1 < least

/-- `delete_tuple`. -/
def deleteTuple (T : RoleTable) (t : RoleTuple) : Except Refusal RoleTable :=
  if belowFloor T t then .error (.floor t.relation t.object) else .ok (T.erase t)

/-- The tuples of the console's store, and of the engine its stores with their groups, empty for
none, its groups and those that own an issuer. -/
structure Roles where
  tuples : RoleTable
  stores : List (String × String)
  groups : List String
  issuerGroups : List String
deriving DecidableEq

/-- The engine has a store of the name. -/
def Roles.hasStore (st : Roles) (s : String) : Bool := st.stores.any fun e => e.1 = s

/-- The tuples are written one by one. -/
def Roles.write (st : Roles) (ts : List RoleTuple) : Except Refusal Roles :=
  (ts.foldlM writeTuple st.tuples).map fun T => { st with tuples := T }

/-- The tuples are deleted one by one. -/
def Roles.delete (st : Roles) (ts : List RoleTuple) : Except Refusal Roles :=
  (ts.foldlM deleteTuple st.tuples).map fun T => { st with tuples := T }

/-! ## Requests -/

/-- `storeRoles`. -/
def storeRoles : List Rel :=
  [.owner, .author, .publisher, .sharer, .tester, .supporter, .auditor, .exporter, .viewer]

/-- `groupRoles`. -/
def groupRoles : List Rel :=
  [.admin, .issuerAdmin, .author, .publisher, .sharer, .tester, .supporter, .auditor, .exporter,
    .viewer]

/-- `platformRoles`. -/
def platformRoles : List Rel := [.admin, .issuerAdmin]

/-- `namespaceRoles`. -/
def namespaceRoles : List Rel := [.author, .viewer]

/-- `validName`. -/
def validName (s : String) : Bool :=
  match s.toList with
  | [] => false
  | c :: cs => (c.isAlpha || c == '_') && cs.all fun c => c.isAlphanum || c == '_'

/-- `validNamespace`. -/
def validNamespace (s : String) : Bool :=
  match s.toList with
  | [] => false
  | c :: cs => (c.isAlpha || c == '_') &&
      cs.all fun c => c.isAlphanum || c == '_' || c == '.' || c == '-'

/-- `nsObject`: the object of a namespace of a store. -/
def nsObject (s ns : String) : Obj := ⟨.namespace, s ++ "/" ++ ns⟩

/-- `accessReq`: a role of a user. -/
structure AccessReq where
  user : User
  role : Rel
deriving DecidableEq, Repr

/-- The tuple of a role on an object. -/
def AccessReq.on (req : AccessReq) (object : Obj) : RoleTuple := ⟨req.user, req.role, object⟩

/-- `deleteStoreReq`. Purging the audit history touches no tuple. -/
structure DeleteReq where
  confirm : String
  purgeDecisions : Bool
deriving DecidableEq, Repr

/-- A request that changes the tuples of the console's store. -/
inductive RoleChange
  | accessAdd (p : Principal) (s : String) (req : AccessReq)
  | accessRemove (p : Principal) (s : String) (items : List AccessReq)
  | namespaceAccessAdd (p : Principal) (s ns : String) (req : AccessReq)
  | namespaceAccessRemove (p : Principal) (s ns : String) (items : List AccessReq)
  | namespaceRename (p : Principal) (s ns renamed : String)
  | groupAccessAdd (p : Principal) (g : String) (req : AccessReq)
  | groupAccessRemove (p : Principal) (g : String) (items : List AccessReq)
  | platformAccessAdd (p : Principal) (req : AccessReq)
  | platformAccessRemove (p : Principal) (items : List AccessReq)
  | groupCreate (p : Principal) (g : String)
  | groupDelete (p : Principal) (g : String)
  | storeGroupSet (p : Principal) (s g : String)
  | createStore (p : Principal) (s g : String)
  | adoptStore (p : Principal) (s : String)
  | deleteStore (p : Principal) (s : String) (req : DeleteReq)
deriving DecidableEq, Repr

/-- The person of a request. -/
def RoleChange.person : RoleChange → Principal
  | accessAdd p .. | accessRemove p .. | namespaceAccessAdd p .. | namespaceAccessRemove p ..
  | namespaceRename p .. | groupAccessAdd p .. | groupAccessRemove p .. | platformAccessAdd p ..
  | platformAccessRemove p .. | groupCreate p .. | groupDelete p .. | storeGroupSet p ..
  | createStore p .. | adoptStore p .. | deleteStore p .. => p

/-! ## Handlers -/

section Handlers

variable (cfg : Config) (st : Roles)

/-- A guard of a handler. -/
def guardOr {ε : Type} (refusal : ε) (b : Bool) : Except ε Unit :=
  if b then .ok () else .error refusal

/-- `require`, and the same question again in the transaction. -/
def require (p : Principal) (relation : Rel) (object : Obj) : Except Refusal Unit :=
  guardOr (.forbidden relation object) (canQ cfg st.tuples.rows p relation object)

/-- `requireStore`. -/
def requireStore (p : Principal) (s : String) (relation : Rel) : Except Refusal Unit := do
  guardOr (.badRequest "invalid store name") (validName s)
  require cfg st p relation ⟨.store, s⟩

/-- `accessInput`. -/
def accessInput (roles : List Rel) (req : AccessReq) : Except Refusal Unit :=
  guardOr (.badRequest "subject_type, subject_id and a valid role are required")
    (req.user.id ≠ "" ∧ req.role ∈ roles)

/-- `accessRemoveInput`. -/
def accessRemoveInput (roles : List Rel) (items : List AccessReq) : Except Refusal Unit := do
  guardOr (.badRequest "1 to 200 assignments per request") (1 ≤ items.length ∧ items.length ≤ 200)
  items.forM (accessInput roles)

/-- `ensureOwner`: the object keeps its role. -/
def ensureOwner (st : Roles) (role : Rel) (object : Obj) : Except Refusal Unit :=
  guardOr .lastOwner (st.tuples.rows.any fun t => t.gives role object)

/-- `claimedStores` has the store. -/
def claimed (s : String) : Bool := .link cfg.platform .platform ⟨.store, s⟩ ∈ st.tuples.rows

/-- `claimStore`: the tuples that put a store under the platform with its first owner. -/
def claimTuples (p : Principal) (s : String) : List RoleTuple :=
  [.link cfg.platform .platform ⟨.store, s⟩, ⟨p.user, .owner, ⟨.store, s⟩⟩]

/-- `handleAccessAdd`. -/
def handleAccessAdd (p : Principal) (s : String) (req : AccessReq) : Except Refusal Roles := do
  requireStore cfg st p s .canManageAccess
  accessInput storeRoles req
  st.write [req.on ⟨.store, s⟩]

/-- `handleAccessRemove`. -/
def handleAccessRemove (p : Principal) (s : String) (items : List AccessReq) :
    Except Refusal Roles := do
  requireStore cfg st p s .canManageAccess
  accessRemoveInput storeRoles items
  let st' ← st.delete (items.map (·.on ⟨.store, s⟩))
  ensureOwner st' .owner ⟨.store, s⟩
  return st'

/-- `namespaceTarget`. -/
def namespaceTarget (p : Principal) (s ns : String) : Except Refusal Unit := do
  requireStore cfg st p s .canManageAccess
  guardOr (.badRequest "invalid namespace") (validNamespace ns)

/-- The two links between a namespace and its store. -/
def namespaceLinks (s ns : String) : List RoleTuple :=
  [.link ⟨.store, s⟩ .store (nsObject s ns), .link (nsObject s ns) .namespace ⟨.store, s⟩]

/-- `handleNamespaceAccessAdd`. -/
def handleNamespaceAccessAdd (p : Principal) (s ns : String) (req : AccessReq) :
    Except Refusal Roles := do
  namespaceTarget cfg st p s ns
  accessInput namespaceRoles req
  st.write (namespaceLinks s ns ++ [req.on (nsObject s ns)])

/-- `handleNamespaceAccessRemove`. -/
def handleNamespaceAccessRemove (p : Principal) (s ns : String) (items : List AccessReq) :
    Except Refusal Roles := do
  namespaceTarget cfg st p s ns
  accessRemoveInput namespaceRoles items
  st.delete (items.map (·.on (nsObject s ns)))

/-- The tuples of an object. -/
def tuplesOf (object : Obj) : List RoleTuple := st.tuples.rows.filter (·.object = object)

/-- One tuple of a renamed namespace is deleted and written again under the new name. -/
def moveTuple (target : Obj) (T : RoleTable) (t : RoleTuple) : Except Refusal RoleTable := do
  writeTuple (← deleteTuple T t) { t with object := target }

/-- `handleNamespaceRename` on the tuples. -/
def handleNamespaceRename (p : Principal) (s ns renamed : String) : Except Refusal Roles := do
  requireStore cfg st p s .canEditModel
  guardOr (.badRequest "namespace names must be identifiers (letters, digits, _ . -) and differ")
    (validNamespace ns ∧ validNamespace renamed ∧ ns ≠ renamed)
  require cfg st p .canManageAccess ⟨.store, s⟩
  let roles := tuplesOf st (nsObject s ns)
  let T ← roles.foldlM (moveTuple (nsObject s renamed)) st.tuples
  -- with roles the link from the old name goes too, and both links of the new one are written
  if roles = [] then return { st with tuples := T }
  let T ← deleteTuple T (.link ⟨.store, s⟩ .store (nsObject s ns))
  Roles.write { st with tuples := T } (namespaceLinks s renamed)

/-- `handleGroupAccessAdd`. -/
def handleGroupAccessAdd (p : Principal) (g : String) (req : AccessReq) : Except Refusal Roles := do
  require cfg st p .canManageAccess ⟨.group, g⟩
  accessInput groupRoles req
  st.write [req.on ⟨.group, g⟩]

/-- `handleGroupAccessRemove`. -/
def handleGroupAccessRemove (p : Principal) (g : String) (items : List AccessReq) :
    Except Refusal Roles := do
  require cfg st p .canManageAccess ⟨.group, g⟩
  accessRemoveInput groupRoles items
  st.delete (items.map (·.on ⟨.group, g⟩))

/-- `handlePlatformAccessAdd`. -/
def handlePlatformAccessAdd (p : Principal) (req : AccessReq) : Except Refusal Roles := do
  require cfg st p .canManageAccess cfg.platform
  accessInput platformRoles req
  st.write [req.on cfg.platform]

/-- `handlePlatformAccessRemove`. -/
def handlePlatformAccessRemove (p : Principal) (items : List AccessReq) : Except Refusal Roles := do
  require cfg st p .canManageAccess cfg.platform
  accessRemoveInput platformRoles items
  let st' ← st.delete (items.map (·.on cfg.platform))
  ensureOwner st' .admin cfg.platform
  return st'

/-- `handleGroupCreate`. -/
def handleGroupCreate (p : Principal) (g : String) : Except Refusal Roles := do
  require cfg st p .canManageAccess cfg.platform
  guardOr (.badRequest "group name must match ^[a-zA-Z_][a-zA-Z0-9_]*$")
    (validName g ∧ g.length ≤ 63)
  guardOr .groupInUse (g ∉ st.groups)
  Roles.write { st with groups := st.groups ++ [g] } [.link cfg.platform .platform ⟨.group, g⟩]

/-- `handleGroupDelete`: an empty group other than the default one, with its tuples. -/
def handleGroupDelete (p : Principal) (g : String) : Except Refusal Roles := do
  require cfg st p .canManageAccess cfg.platform
  guardOr .groupInUse
    (g ≠ "default" ∧ (g ∈ st.groups → g ∉ st.issuerGroups ∧ ∀ e ∈ st.stores, e.2 ≠ g))
  Roles.delete { st with groups := st.groups.filter (· ≠ g) } (tuplesOf st ⟨.group, g⟩)

/-- The group of a store changes in the engine. -/
def Roles.setStoreGroup (s g : String) : Roles :=
  { st with stores := st.stores.map fun e => if e.1 = s then (s, g) else e }

/-- The link of a store to a group, unless the group is empty. -/
def groupLink (s g : String) : List RoleTuple :=
  if g = "" then [] else [.link ⟨.group, g⟩ .group ⟨.store, s⟩]

/-- `handleStoreGroupSet`. -/
def handleStoreGroupSet (p : Principal) (s g : String) : Except Refusal Roles := do
  require cfg st p .canManageAccess cfg.platform
  guardOr (.badRequest "group name must match ^[a-zA-Z_][a-zA-Z0-9_]*$ (empty detaches)")
    (g = "" ∨ validName g ∧ g.length ≤ 63)
  match st.stores.lookup s with
  | none => .error .unknownStore
  | some old =>
    guardOr .unknownGroup (g = "" ∨ g ∈ st.groups)
    if old = g then return st
    let st' ← (st.setStoreGroup s g).delete (groupLink s old)
    st'.write (groupLink s g)

/-- The names that `create_store` refuses. -/
def reservedNames : List String :=
  ["as", "contains", "default", "else", "every", "false", "if", "import", "in", "not", "null",
    "package", "some", "true", "with", "input", "data"]

/-- `handleCreateStore`. -/
def handleCreateStore (p : Principal) (s g : String) : Except Refusal Roles := do
  require cfg st p .canCreateStore cfg.platform
  guardOr (.badRequest "store name must match ^[a-zA-Z_][a-zA-Z0-9_]*$")
    (validName s ∧ s.length ≤ 63)
  guardOr (.badRequest "group name must match ^[a-zA-Z_][a-zA-Z0-9_]*$")
    (g = "" ∨ validName g ∧ g.length ≤ 63)
  guardOr (.badRequest "reserved Rego keyword") (s ∉ reservedNames)
  guardOr .storeExists (!st.hasStore s)
  guardOr .unknownGroup (g = "" ∨ g ∈ st.groups)
  Roles.write { st with stores := st.stores ++ [(s, g)] } (groupLink s g ++ claimTuples cfg p s)

/-- `handleAdoptStore`. -/
def handleAdoptStore (p : Principal) (s : String) : Except Refusal Roles := do
  guardOr (.badRequest "invalid store name") (validName s)
  require cfg st p .canViewAllStores cfg.platform
  guardOr .unknownStore (st.hasStore s)
  guardOr (.conflict "store is already managed; use its Access tab") (!claimed cfg st s)
  st.write (claimTuples cfg p s)

/-- The gate of `requireLifecycle`: who manages the store, and for an unclaimed one whoever may
create stores. -/
def lifecycleGate (p : Principal) (s : String) : Bool :=
  canQ cfg st.tuples.rows p .canManageAccess ⟨.store, s⟩ ||
    (!claimed cfg st s && canQ cfg st.tuples.rows p .canCreateStore cfg.platform)

/-- `requireLifecycle`. -/
def requireLifecycle (p : Principal) (s confirm : String) : Except Refusal Unit := do
  guardOr (.badRequest "invalid store name") (validName s)
  guardOr (.forbidden .canManageAccess ⟨.store, s⟩) (lifecycleGate cfg st p s)
  guardOr (.badRequest "type the store name to confirm") (confirm = s)
  guardOr (.conflict "the console's own store cannot be deleted from the console")
    (s ≠ cfg.consoleStore)

/-- `delete_store_receipt`: the store with all its rows. -/
def deleteStoreReceipt (s : String) : Except Refusal Roles := do
  guardOr .unknownStore (st.hasStore s)
  return { st with stores := st.stores.filter (·.1 ≠ s) }

/-- `handleDeleteStore`: the store, then the tuples of its object in the order they are read. -/
def handleDeleteStore (p : Principal) (s : String) (req : DeleteReq) : Except Refusal Roles := do
  requireLifecycle cfg st p s req.confirm
  guardOr (.badRequest "purge_decisions: no decision log in the console's database")
    (req.purgeDecisions → cfg.decisionLog)
  let st' ← deleteStoreReceipt st s
  st'.delete (tuplesOf st ⟨.store, s⟩)

/-- The handler of a request. -/
def handle : RoleChange → Except Refusal Roles
  | .accessAdd p s req => handleAccessAdd cfg st p s req
  | .accessRemove p s items => handleAccessRemove cfg st p s items
  | .namespaceAccessAdd p s ns req => handleNamespaceAccessAdd cfg st p s ns req
  | .namespaceAccessRemove p s ns items => handleNamespaceAccessRemove cfg st p s ns items
  | .namespaceRename p s ns renamed => handleNamespaceRename cfg st p s ns renamed
  | .groupAccessAdd p g req => handleGroupAccessAdd cfg st p g req
  | .groupAccessRemove p g items => handleGroupAccessRemove cfg st p g items
  | .platformAccessAdd p req => handlePlatformAccessAdd cfg st p req
  | .platformAccessRemove p items => handlePlatformAccessRemove cfg st p items
  | .groupCreate p g => handleGroupCreate cfg st p g
  | .groupDelete p g => handleGroupDelete cfg st p g
  | .storeGroupSet p s g => handleStoreGroupSet cfg st p s g
  | .createStore p s g => handleCreateStore cfg st p s g
  | .adoptStore p s => handleAdoptStore cfg st p s
  | .deleteStore p s req => handleDeleteStore cfg st p s req

/-- What the transaction of a change of roles asks once it has its locks. -/
def RoleChange.gate : RoleChange → Bool
  | accessAdd p s _ | accessRemove p s _ | namespaceAccessAdd p s _ _ | namespaceAccessRemove p s _ _ =>
    canQ cfg st.tuples.rows p .canManageAccess ⟨.store, s⟩
  | namespaceRename p s _ _ => canQ cfg st.tuples.rows p .canEditModel ⟨.store, s⟩ &&
      canQ cfg st.tuples.rows p .canManageAccess ⟨.store, s⟩
  | groupAccessAdd p g _ | groupAccessRemove p g _ =>
    canQ cfg st.tuples.rows p .canManageAccess ⟨.group, g⟩
  | platformAccessAdd p _ | platformAccessRemove p _ | groupCreate p _ | groupDelete p _
  | storeGroupSet p _ _ => canQ cfg st.tuples.rows p .canManageAccess cfg.platform
  | createStore p _ _ => canQ cfg st.tuples.rows p .canCreateStore cfg.platform
  | adoptStore p s => canQ cfg st.tuples.rows p .canViewAllStores cfg.platform && !claimed cfg st s
  | deleteStore p s _ => lifecycleGate cfg st p s

end Handlers

/-- What a handler checks of a request by itself. -/
def RoleChange.valid (cfg : Config) : RoleChange → Bool
  | accessAdd _ s req => validName s && (accessInput storeRoles req).isOk
  | accessRemove _ s items => validName s && (accessRemoveInput storeRoles items).isOk
  | namespaceAccessAdd _ s ns req =>
    validName s && validNamespace ns && (accessInput namespaceRoles req).isOk
  | namespaceAccessRemove _ s ns items =>
    validName s && validNamespace ns && (accessRemoveInput namespaceRoles items).isOk
  | namespaceRename _ s ns renamed =>
    validName s && validNamespace ns && validNamespace renamed && ns ≠ renamed
  | groupAccessAdd _ _ req => (accessInput groupRoles req).isOk
  | groupAccessRemove _ _ items => (accessRemoveInput groupRoles items).isOk
  | platformAccessAdd _ req => (accessInput platformRoles req).isOk
  | platformAccessRemove _ items => (accessRemoveInput platformRoles items).isOk
  | groupCreate _ g => validName g && g.length ≤ 63
  | groupDelete .. => true
  | storeGroupSet _ _ g => g = "" || (validName g && g.length ≤ 63)
  | createStore _ s g => validName s && s.length ≤ 63 && (g = "" || (validName g && g.length ≤ 63)) &&
      s ∉ reservedNames
  | adoptStore _ s => validName s
  | deleteStore _ s req => validName s && req.confirm = s && s ≠ cfg.consoleStore &&
      (!req.purgeDecisions || cfg.decisionLog)

/-- What the engine asks of its stores and groups. -/
def RoleChange.allowed (st : Roles) : RoleChange → Bool
  | groupCreate _ g => g ∉ st.groups
  | groupDelete _ g => g ≠ "default" ∧ (g ∈ st.groups → g ∉ st.issuerGroups ∧ ∀ e ∈ st.stores, e.2 ≠ g)
  | storeGroupSet _ s g => (st.stores.lookup s).isSome && (g = "" || g ∈ st.groups)
  | createStore _ s g => !st.hasStore s && (g = "" || g ∈ st.groups)
  | adoptStore _ s | deleteStore _ s _ => st.hasStore s
  | _ => true

/-! ## Successful handlers -/

theorem bind_eq_ok {ε α β : Type} {x : Except ε α} {f : α → Except ε β} {b : β} :
    (x >>= f) = .ok b ↔ ∃ a, x = .ok a ∧ f a = .ok b := by
  cases x <;> simp [bind, Except.bind]

theorem map_eq_ok {ε α β : Type} {x : Except ε α} {f : α → β} {b : β} :
    x.map f = .ok b ↔ ∃ a, x = .ok a ∧ f a = b := by
  cases x <;> simp [Except.map]

theorem guardOr_eq_ok {ε : Type} {refusal : ε} {b : Bool} {u : Unit} :
    guardOr refusal b = .ok u ↔ b = true := by
  cases b <;> simp [guardOr]

theorem toOption_eq_some {ε α : Type} {x : Except ε α} {a : α} :
    x.toOption = some a ↔ x = .ok a := by
  cases x <;> simp [Except.toOption]

theorem isOk_iff {ε : Type} {x : Except ε Unit} : x.isOk = true ↔ x = .ok () := by
  cases x <;> simp [Except.isOk, Except.toBool]

theorem require_eq_ok {cfg : Config} {st : Roles} {p : Principal} {relation : Rel} {object : Obj}
    {u : Unit} : require cfg st p relation object = .ok u ↔
      canQ cfg st.tuples.rows p relation object = true :=
  guardOr_eq_ok

theorem requireStore_eq_ok {cfg : Config} {st : Roles} {p : Principal} {s : String} {relation : Rel}
    {u : Unit} : requireStore cfg st p s relation = .ok u ↔
      validName s = true ∧ canQ cfg st.tuples.rows p relation ⟨.store, s⟩ = true := by
  simp only [requireStore, require, bind_eq_ok, guardOr_eq_ok, exists_const]

theorem namespaceTarget_eq_ok {cfg : Config} {st : Roles} {p : Principal} {s ns : String}
    {u : Unit} : namespaceTarget cfg st p s ns = .ok u ↔ (validName s = true ∧
      canQ cfg st.tuples.rows p .canManageAccess ⟨.store, s⟩ = true) ∧ validNamespace ns = true := by
  simp only [namespaceTarget, bind_eq_ok, guardOr_eq_ok, requireStore_eq_ok, exists_const]

@[simp]
theorem RoleTable.mem_insert {T : RoleTable} {t u : RoleTuple} :
    u ∈ (T.insert t).rows ↔ u ∈ T.rows ∨ u = t := by
  simp only [RoleTable.insert]
  split
  · rename_i ht
    exact ⟨.inl, fun h => h.elim id fun h => h ▸ ht⟩
  · simp

@[simp]
theorem RoleTable.mem_erase {T : RoleTable} {t u : RoleTuple} :
    u ∈ (T.erase t).rows ↔ u ∈ T.rows ∧ u ≠ t := by
  simp [RoleTable.erase]

theorem writeTuple_eq_ok {T T' : RoleTable} {t : RoleTuple} (h : writeTuple T t = .ok T') :
    T' = T.insert t := by
  simp only [writeTuple] at h
  split at h
  · cases h
  · split at h
    · cases h
    · exact (Except.ok.inj h).symm

theorem deleteTuple_eq_ok {T T' : RoleTable} {t : RoleTuple} (h : deleteTuple T t = .ok T') :
    T' = T.erase t := by
  simp only [deleteTuple] at h
  split at h
  · cases h
  · exact (Except.ok.inj h).symm

/-- What statements on a list of tuples leave is what each of them leaves. -/
theorem mem_of_foldlM {f : RoleTable → RoleTuple → Except Refusal RoleTable}
    {P : RoleTuple → RoleTuple → Prop}
    (hf : ∀ T T' t u, f T t = .ok T' → u ∈ T'.rows → u ∈ T.rows ∨ P t u) {ts : List RoleTuple}
    {T T' : RoleTable} (h : ts.foldlM f T = .ok T') {u : RoleTuple} (hu : u ∈ T'.rows) :
    u ∈ T.rows ∨ ∃ t ∈ ts, P t u := by
  induction ts generalizing T with
  | nil =>
    cases h
    exact .inl hu
  | cons t ts ih =>
    rw [List.foldlM_cons, bind_eq_ok] at h
    obtain ⟨T₁, h₁, h⟩ := h
    rcases ih h with hu | ⟨t', ht', hP⟩
    · rcases hf T T₁ t u h₁ hu with hu | hP
      · exact .inl hu
      · exact .inr ⟨t, List.mem_cons_self, hP⟩
    · exact .inr ⟨t', List.mem_cons_of_mem t ht', hP⟩

theorem mem_of_write {st st' : Roles} {ts : List RoleTuple} (h : st.write ts = .ok st')
    {u : RoleTuple} (hu : u ∈ st'.tuples.rows) : u ∈ st.tuples.rows ∨ u ∈ ts := by
  obtain ⟨T, hT, rfl⟩ := map_eq_ok.mp h
  have hwrite : ∀ T T' t u, writeTuple T t = .ok T' → u ∈ T'.rows → u ∈ T.rows ∨ u = t := by
    intro T T' t u h hu
    rwa [writeTuple_eq_ok h, RoleTable.mem_insert] at hu
  rcases mem_of_foldlM hwrite hT hu with hu | ⟨t, ht, rfl⟩
  · exact .inl hu
  · exact .inr ht

theorem mem_of_delete {st st' : Roles} {ts : List RoleTuple} (h : st.delete ts = .ok st')
    {u : RoleTuple} (hu : u ∈ st'.tuples.rows) : u ∈ st.tuples.rows := by
  obtain ⟨T, hT, rfl⟩ := map_eq_ok.mp h
  have hdelete : ∀ T T' t u, deleteTuple T t = .ok T' → u ∈ T'.rows → u ∈ T.rows ∨ False := by
    intro T T' t u h hu
    rw [deleteTuple_eq_ok h, RoleTable.mem_erase] at hu
    exact .inl hu.1
  rcases mem_of_foldlM hdelete hT hu with hu | ⟨_, _, h⟩
  · exact hu
  · exact h.elim

theorem mem_of_moveTuples {target : Obj} {ts : List RoleTuple} {T T' : RoleTable}
    (h : ts.foldlM (moveTuple target) T = .ok T') {u : RoleTuple} (hu : u ∈ T'.rows) :
    u ∈ T.rows ∨ u ∈ ts.map fun t => { t with object := target } := by
  have hmove : ∀ T T' t u, moveTuple target T t = .ok T' → u ∈ T'.rows →
      u ∈ T.rows ∨ u = { t with object := target } := by
    intro T T' t u h hu
    obtain ⟨T₁, h₁, h⟩ := bind_eq_ok.mp h
    rw [writeTuple_eq_ok h, deleteTuple_eq_ok h₁, RoleTable.mem_insert, RoleTable.mem_erase] at hu
    exact hu.imp_left And.left
  rcases mem_of_foldlM hmove h hu with hu | ⟨t, ht, rfl⟩
  · exact .inl hu
  · exact .inr (List.mem_map_of_mem ht)

/-- The tuples that a request writes. -/
def written (cfg : Config) (st : Roles) : RoleChange → List RoleTuple
  | .accessAdd _ s req => [req.on ⟨.store, s⟩]
  | .namespaceAccessAdd _ s ns req => namespaceLinks s ns ++ [req.on (nsObject s ns)]
  | .namespaceRename _ s ns renamed =>
    ((tuplesOf st (nsObject s ns)).map fun t => { t with object := nsObject s renamed }) ++
      namespaceLinks s renamed
  | .groupAccessAdd _ g req => [req.on ⟨.group, g⟩]
  | .platformAccessAdd _ req => [req.on cfg.platform]
  | .groupCreate _ g => [.link cfg.platform .platform ⟨.group, g⟩]
  | .storeGroupSet _ s g => groupLink s g
  | .createStore p s g => groupLink s g ++ claimTuples cfg p s
  | .adoptStore p s => claimTuples cfg p s
  | .accessRemove .. | .namespaceAccessRemove .. | .groupAccessRemove .. | .platformAccessRemove ..
  | .groupDelete .. | .deleteStore .. => []

/-- **A tuple that is new after a request is one that the request writes.** -/
theorem written_of_mem {cfg : Config} {st st' : Roles} {c : RoleChange}
    (h : handle cfg st c = .ok st') {t : RoleTuple} (ht : t ∈ st'.tuples.rows) :
    t ∈ st.tuples.rows ∨ t ∈ written cfg st c := by
  cases c with
  | accessAdd p s req =>
    simp only [handle, handleAccessAdd, bind_eq_ok] at h
    obtain ⟨_, _, _, _, h⟩ := h
    exact mem_of_write h ht
  | accessRemove p s items =>
    simp only [handle, handleAccessRemove, bind_eq_ok] at h
    obtain ⟨_, _, _, _, _, h, _, _, hpure⟩ := h
    cases hpure
    exact .inl (mem_of_delete h ht)
  | namespaceAccessAdd p s ns req =>
    simp only [handle, handleNamespaceAccessAdd, bind_eq_ok] at h
    obtain ⟨_, _, _, _, h⟩ := h
    exact mem_of_write h ht
  | namespaceAccessRemove p s ns items =>
    simp only [handle, handleNamespaceAccessRemove, bind_eq_ok] at h
    obtain ⟨_, _, _, _, h⟩ := h
    exact .inl (mem_of_delete h ht)
  | namespaceRename p s ns renamed =>
    simp only [handle, handleNamespaceRename, bind_eq_ok] at h
    obtain ⟨_, _, _, _, _, _, T, hT, h⟩ := h
    have hmoved : ∀ u ∈ T.rows, u ∈ st.tuples.rows ∨ u ∈ written cfg st (.namespaceRename p s ns renamed) :=
      fun u hu => (mem_of_moveTuples hT hu).imp_right fun hu => List.mem_append_left _ hu
    split at h
    · cases h
      exact hmoved t ht
    · obtain ⟨T', hT', h⟩ := bind_eq_ok.mp h
      rcases mem_of_write h ht with ht | ht
      · rw [deleteTuple_eq_ok hT', RoleTable.mem_erase] at ht
        exact hmoved t ht.1
      · exact .inr (List.mem_append_right _ ht)
  | groupAccessAdd p g req =>
    simp only [handle, handleGroupAccessAdd, bind_eq_ok] at h
    obtain ⟨_, _, _, _, h⟩ := h
    exact mem_of_write h ht
  | groupAccessRemove p g items =>
    simp only [handle, handleGroupAccessRemove, bind_eq_ok] at h
    obtain ⟨_, _, _, _, h⟩ := h
    exact .inl (mem_of_delete h ht)
  | platformAccessAdd p req =>
    simp only [handle, handlePlatformAccessAdd, bind_eq_ok] at h
    obtain ⟨_, _, _, _, h⟩ := h
    exact mem_of_write h ht
  | platformAccessRemove p items =>
    simp only [handle, handlePlatformAccessRemove, bind_eq_ok] at h
    obtain ⟨_, _, _, _, _, h, _, _, hpure⟩ := h
    cases hpure
    exact .inl (mem_of_delete h ht)
  | groupCreate p g =>
    simp only [handle, handleGroupCreate, bind_eq_ok] at h
    obtain ⟨_, _, _, _, _, _, h⟩ := h
    exact mem_of_write h ht
  | groupDelete p g =>
    simp only [handle, handleGroupDelete, bind_eq_ok] at h
    obtain ⟨_, _, _, _, h⟩ := h
    exact .inl (mem_of_delete h ht)
  | storeGroupSet p s g =>
    simp only [handle, handleStoreGroupSet, bind_eq_ok] at h
    obtain ⟨_, _, _, _, h⟩ := h
    split at h
    · cases h
    · obtain ⟨_, _, h⟩ := bind_eq_ok.mp h
      split at h
      · cases h
        exact .inl ht
      · obtain ⟨st₁, h₁, h⟩ := bind_eq_ok.mp h
        exact (mem_of_write h ht).imp_left (mem_of_delete h₁)
  | createStore p s g =>
    simp only [handle, handleCreateStore, bind_eq_ok] at h
    obtain ⟨_, _, _, _, _, _, _, _, _, _, _, _, h⟩ := h
    exact mem_of_write h ht
  | adoptStore p s =>
    simp only [handle, handleAdoptStore, bind_eq_ok] at h
    obtain ⟨_, _, _, _, _, _, _, _, h⟩ := h
    exact mem_of_write h ht
  | deleteStore p s req =>
    simp only [handle, handleDeleteStore, deleteStoreReceipt, bind_eq_ok] at h
    obtain ⟨_, _, _, _, st₁, ⟨_, _, hpure⟩, h⟩ := h
    cases hpure
    exact .inl (mem_of_delete h ht)

end PgAuthz.Console
