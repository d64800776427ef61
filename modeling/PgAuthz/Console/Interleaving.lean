import Mathlib.Logic.Function.Basic
import PgAuthz.Console.AuditedCalls
import PgAuthz.Console.StoreDeletion
import PgAuthz.Transition.Gatekeeping

/-!
# Console changes side by side

Any number of changes of the console run at the same time. A handler reads the namespaces that a
request touches and asks for the capability; its transaction then takes the platform lock shared and
the lock of its object, asks again with the namespaces it has read, and commits. A change about the
platform takes the platform lock alone, exclusively. The listing of the stores brings the group links
in step with the engine without a lock.

## Main definitions

* `Estate`: the console's own store and the stores it manages
* `GatedChange`: the changes of the console, with their object, gate and effect
* `consoleSystem`: the transition system of them
* `Authorised`: the capability that a change needs, in one state

## Main results

* `roles_of_effect`: a change of roles that is let through commits what its handler does
* `managed_of_effect`: a change leaves the rows of the stores whose lock it does not hold
-/

namespace PgAuthz.Console

open Attribution (runAll)
open Gatekeeping (Event State System)
open Locking (Mode)

/-! ## Changes -/

/-- The console's own store with the stores and groups of the engine, and the rows of each store. -/
structure Estate where
  roles : Roles
  managed : String → ManagedStore

/-- The rows of a store are replaced. -/
def Estate.setManaged (W : Estate) (s : String) (st : ManagedStore) : Estate :=
  { W with managed := Function.update W.managed s st }

/-- What a transaction about a store sees. -/
def Estate.at (W : Estate) (s : String) : World :=
  ⟨W.roles, [], [], W.managed s, ⟨[], List.nodup_nil⟩⟩

/-- A change of the console: of roles, of the rows of a store, of its model as a text or a version of
the registry, and of the tuples of the console's own store through the data editor. The model of the
console's own store is the shipped one. -/
inductive GatedChange
  | roles (c : RoleChange)
  | store (p : Principal) (s : String) (req : StoreRequest)
  | modelDsl (p : Principal) (s dsl : String)
  | apply (p : Principal) (s : String) (version : ModelVersion)
  | ownStore (p : Principal) (dels writes : List RoleTuple)
deriving DecidableEq, Repr

/-- The person of a change. -/
def GatedChange.person : GatedChange → Principal
  | roles c => c.person
  | store p .. | modelDsl p .. | apply p .. | ownStore p .. => p

section Changes

variable (cfg : Config)

/-- The object whose lock a change of roles takes. -/
def RoleChange.object : RoleChange → Obj
  | accessAdd _ s _ | accessRemove _ s _ | namespaceAccessAdd _ s _ _ | namespaceAccessRemove _ s _ _
  | namespaceRename _ s _ _ | createStore _ s _ | adoptStore _ s | deleteStore _ s _ => ⟨.store, s⟩
  | groupAccessAdd _ g _ | groupAccessRemove _ g _ => ⟨.group, g⟩
  | platformAccessAdd .. | platformAccessRemove .. | groupCreate .. | groupDelete ..
  | storeGroupSet .. => cfg.platform

/-- The object whose lock a change takes. -/
def GatedChange.object : GatedChange → Obj
  | roles c => c.object cfg
  | store _ s _ | modelDsl _ s _ | apply _ s _ => ⟨.store, s⟩
  | ownStore .. => ⟨.store, cfg.consoleStore⟩

/-- `accessLock`. -/
def accessLock (object : Obj) : List (Obj × Mode) :=
  if object.typ = .platform then [(object, .exclusive)]
  else [(cfg.platform, .shared), (object, .exclusive)]

/-- A change that its handler takes up. The role of the local admin is one of the roles on stores, and
a request on the rows of the console's own store is `ownStore`. -/
def GatedChange.valid (c : GatedChange) : Bool :=
  c.person.storeRole.all (· ∈ storeRoles) &&
    match c with
    | roles c => c.valid cfg
    | store _ s req => validName s && s ≠ cfg.consoleStore && req.valid
    | modelDsl _ s _ | apply _ s _ => validName s && s ≠ cfg.consoleStore
    | ownStore .. => validName cfg.consoleStore

/-- What the transaction of a change asks once it has its locks, with the namespaces that the handler
has read before. -/
def GatedChange.gate (W : Estate) (touched : List String) : GatedChange → Bool
  | roles c => c.gate cfg W.roles
  | store p s req => authorizeScoped cfg W.roles.tuples.rows p s req.cap touched
  | modelDsl p s _ => canQ cfg W.roles.tuples.rows p .canEditModel ⟨.store, s⟩
  | apply p s _ => canQ cfg W.roles.tuples.rows p .canRollout ⟨.store, s⟩
  | ownStore p _ _ => canQ cfg W.roles.tuples.rows p .canGrant ⟨.store, cfg.consoleStore⟩

/-- The namespaces that a change touches, in one state. -/
def GatedChange.touched (W : Estate) : GatedChange → List String
  | store _ s req => req.touched (W.managed s)
  | _ => []

/-- The person holds the capability that the change needs, in one state: on the store, or on the
namespaces of the types that it touches, or on the group or the platform. -/
def Authorised (W : Estate) (c : GatedChange) : Prop := c.gate cfg W (c.touched W) = true

instance (W : Estate) (c : GatedChange) : Decidable (Authorised cfg W c) :=
  inferInstanceAs (Decidable (_ = true))

variable (env : Engine)

/-- What a change commits. Its statements read and write rows under its own locks, so they are those of
the state it commits in. -/
def GatedChange.effect (W : Estate) : GatedChange → Option Estate
  | roles c =>
    let s := c.about.getD ""
    if c.allowed W.roles then
      (runAll env.effectiveRole c.person.tag (W.at s) ((roleCalls cfg (W.at s) c).map (·.call))).toOption.map
        fun r => match c.about with
          | some s => { W.setManaged s r.1.store with roles := r.1.roles }
          | none => { W with roles := r.1.roles }
    else none
  | store _ s req =>
    if req.mayShare env.toChecks (W.managed s) then
      (runChanges env.toChecks (W.managed s) req.changes).toOption.map fun st => W.setManaged s st
    else none
  | modelDsl _ s dsl => (env.importModel dsl (W.managed s)).toOption.map fun r => W.setManaged s r.1
  | apply p s version =>
    (runAll env.effectiveRole p.tag (W.at s) (applyModel env (W.managed s) version)).toOption.map
      fun r => W.setManaged s r.1.store
  | ownStore _ dels writes => do
    let st ← (W.roles.delete dels).toOption
    let st ← (st.write writes).toOption
    return { W with roles := st }

/-- The calls of a change on the console's own store. -/
def GatedChange.calls (W : Estate) : GatedChange → List RoleCall
  | roles c => roleCalls cfg (W.at (c.about.getD "")) c
  | ownStore _ dels writes => dels.map .delete ++ writes.map .write
  | store .. | modelDsl .. | apply .. => []

/-- `syncGroupLinks`, statement by statement. -/
inductive LinkSync
  | link (s g : String)
  | unlink (s g : String)
  | linkGroup (g : String)
deriving DecidableEq, Repr

/-- The call of a statement of the listing. -/
def LinkSync.call : LinkSync → RoleCall
  | link s g => .write (.link ⟨.group, g⟩ .group ⟨.store, s⟩)
  | unlink s g => .delete (.link ⟨.group, g⟩ .group ⟨.store, s⟩)
  | linkGroup g => .write (.link cfg.platform .platform ⟨.group, g⟩)

/-- One statement of the listing, which commits by itself. -/
def LinkSync.effect (W : Estate) (x : LinkSync) : Option Estate :=
  ((x.call cfg).onRoles W.roles).toOption.map fun st => { W with roles := st }

/-- A change that its handler takes up. -/
abbrev ValidChange := { c : GatedChange // c.valid cfg = true }

/-- The console: a handler that finds the capability keeps the namespaces it has read, and its
transaction asks again under the locks of its object. -/
def consoleSystem : System Estate (ValidChange cfg) (List String) Obj LinkSync where
  plan W c := if Authorised cfg W c.1 then some (c.1.touched W) else none
  locks c := accessLock cfg (c.1.object cfg)
  gate W c touched := c.1.gate cfg W touched
  effect W c := c.1.effect cfg env W
  outside W x := x.effect cfg W

end Changes

/-! ## What a change commits -/

section Effects

variable {cfg : Config} {env : Engine} {W W' : Estate}

/-- The roles after a change are those after its calls. -/
theorem runRoles_of_effect {c : GatedChange} (h : c.effect cfg env W = some W') :
    runRoles W.roles (c.calls cfg W) = .ok W'.roles := by
  cases c with
  | roles c =>
    obtain ⟨-, h⟩ := Option.ite_none_right_eq_some.mp h
    obtain ⟨⟨w, log⟩, hrun, rfl⟩ := Option.map_eq_some_iff.mp h
    have hroles := runRoles_of_runAll (w := W.at (c.about.getD "")) (toOption_eq_some.mp hrun)
    cases c.about <;> exact hroles
  | store p s req =>
    obtain ⟨-, h⟩ := Option.ite_none_right_eq_some.mp h
    obtain ⟨st, -, rfl⟩ := Option.map_eq_some_iff.mp h
    rfl
  | modelDsl p s dsl =>
    obtain ⟨r, -, rfl⟩ := Option.map_eq_some_iff.mp h
    rfl
  | apply p s version =>
    obtain ⟨r, -, rfl⟩ := Option.map_eq_some_iff.mp h
    rfl
  | ownStore p dels writes =>
    obtain ⟨st₁, hdelete, h⟩ := Option.bind_eq_some_iff.mp h
    obtain ⟨st₂, hwrite, h⟩ := Option.bind_eq_some_iff.mp h
    obtain rfl := Option.some.inj h
    rw [GatedChange.calls, runRoles_append, runRoles_delete, toOption_eq_some.mp hdelete]
    exact runRoles_write.trans (toOption_eq_some.mp hwrite)

/-- **A change of roles that is let through commits what its handler does.** -/
theorem roles_of_effect {c : RoleChange} (hvalid : c.valid cfg = true) (hgate : c.gate cfg W.roles = true)
    (h : (GatedChange.roles c).effect cfg env W = some W') : handle cfg W.roles c = .ok W'.roles := by
  have hallowed := (Option.ite_none_right_eq_some.mp h).1
  exact (handle_eq_ok_iff (w := W.at (c.about.getD ""))).mpr ⟨⟨hvalid, hgate, hallowed⟩, runRoles_of_effect h⟩

/-- **A change leaves the rows of the stores whose lock it does not hold.** -/
theorem managed_of_effect {c : GatedChange} (h : c.effect cfg env W = some W') {s : String}
    (hplatform : (c.object cfg).typ ≠ .platform) (hne : c.object cfg ≠ ⟨.store, s⟩) :
    W'.managed s = W.managed s := by
  have hset : ∀ {s' : String} {st : ManagedStore}, (⟨.store, s'⟩ : Obj) ≠ ⟨.store, s⟩ →
      (W.setManaged s' st).managed s = W.managed s := by
    intro s' st hne
    apply Function.update_of_ne
    rintro rfl
    exact hne rfl
  cases c with
  | roles c =>
    obtain ⟨-, h⟩ := Option.ite_none_right_eq_some.mp h
    obtain ⟨r, -, rfl⟩ := Option.map_eq_some_iff.mp h
    -- a move of a store to a group holds the platform lock
    cases c with
    | storeGroupSet p s' g => exact absurd rfl hplatform
    | accessAdd _ s' _ | accessRemove _ s' _ | namespaceAccessAdd _ s' _ _ | namespaceAccessRemove _ s' _ _
    | namespaceRename _ s' _ _ | createStore _ s' _ | adoptStore _ s' | deleteStore _ s' _ => exact hset hne
    | _ => rfl
  | store p s' req =>
    obtain ⟨-, h⟩ := Option.ite_none_right_eq_some.mp h
    obtain ⟨st, -, rfl⟩ := Option.map_eq_some_iff.mp h
    exact hset hne
  | modelDsl p s' dsl =>
    obtain ⟨r, -, rfl⟩ := Option.map_eq_some_iff.mp h
    exact hset hne
  | apply p s' version =>
    obtain ⟨r, -, rfl⟩ := Option.map_eq_some_iff.mp h
    exact hset hne
  | ownStore p dels writes =>
    obtain ⟨st₁, -, h⟩ := Option.bind_eq_some_iff.mp h
    obtain ⟨st₂, -, h⟩ := Option.bind_eq_some_iff.mp h
    obtain rfl := Option.some.inj h
    rfl

end Effects

end PgAuthz.Console
