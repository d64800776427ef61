import PgAuthz.Daemon.Issuers
import PgAuthz.Registry.Convergence
import PgAuthz.Store.Partitions

/-!
# Store groups

A store group is a named set of stores that shares administration, trust and models. The groups, the
stores with the group of each, the issuer bindings, the registry of models with its owners and the grants
between groups are tables of one database, and every function below is a transaction on them. A change of
a group, of a membership or of a grant writes a row of `authz.store_group_audit`; a change of a binding
fires a trigger, which writes a row of `authz.issuer_bindings_audit` and counts the revision up that the
daemons poll.

What the functions do to the model of a store, and what they ask of a model of the registry, is that of
the module on publishing and applying. Here it is joined with the tables that say who may.

## Main definitions

* `Db`: the tables
* `createStoreGroup`, `deleteStoreGroup`, `setStoreGroup`: groups and their stores
* `grantModelConsumer`, `revokeModelConsumer`, `setModelOwner`: sharing and ownership
* `publish`, `publishDefinition`, `apply`: the functions of the registry, as they consult the tables
* `setIssuerBinding`, `deleteIssuerBinding`: the write side of the bindings
* `Call`, `step`: the transactions as one transition system
-/

namespace PgAuthz

namespace Groups

open Keyed (refuseIf)
open Daemon (Binding GroupedStore IssuerTables plainName)
open Registry (Owner Tenant Registered Version Definition)

/-! ## The tables -/

variable (J : Type) in
/-- A row of `authz.stores` with the model of the store, and its row of `store_model_state`: the model and
the version that were applied last. -/
structure StoreRow where
  name : String
  group : Option String
  model : Registry.Store String J
  managed : Option (String × ℕ)
  plain : plainName name = true

/-- A row of `authz.issuer_bindings`. -/
structure BindingRow where
  row : Binding
  named : row.issuer ≠ ""
deriving DecidableEq

/-- A row of `authz.model_owners`. -/
structure OwnerRow where
  name : String
  owner : Owner String

variable (J : Type) in
/-- The rows of `authz.model_registry` of one name, the latest version first. -/
structure NamedModel where
  name : String
  versions : List (Version String J)

/-- The column `action` of `store_group_audit`. -/
inductive GroupAction
  | create | update | delete | attach | detach | relate | unrelate | own
deriving DecidableEq, Repr

/-- A row of `authz.store_group_audit`. -/
structure GroupEntry where
  action : GroupAction
  performedBy : String
  groupName : String
  store : Option String
  description : Option String
deriving DecidableEq, Repr

/-- The column `action` of `issuer_bindings_audit`. -/
inductive BindingAction
  | insert | update | delete
deriving DecidableEq, Repr

/-- A row of `authz.issuer_bindings_audit`: the binding before a deletion, and after any other change. -/
structure BindingEntry where
  action : BindingAction
  performedBy : String
  row : Binding
deriving DecidableEq, Repr

variable (J : Type) in
/-- The tables. A row of `store_group_relations` is the owner's group and the consumer's. -/
structure Db where
  groups : List String
  stores : Keyed.Table (@StoreRow.name J)
  bindings : Keyed.Table fun b : BindingRow => b.row.issuer
  revision : ℕ
  bindingTrail : List BindingEntry
  registry : Keyed.Table (@NamedModel.name J)
  owners : Keyed.Table OwnerRow.name
  consumers : List (String × String)
  groupTrail : List GroupEntry

/-- The tables of a new installation. -/
def Db.installed (J : Type) : Db J := ⟨["default"], ∅, ∅, 0, [], ∅, ∅, [], []⟩

/-- Why a function raises. -/
inductive Refused
  | unknownStore (name : String)
  | invalidStoreName (name : String)
  | reservedStoreName (name : String)
  | storeExists (name : String)
  | unknownGroup (name : String)
  | invalidGroupName (name : String)
  | groupExists (name : String)
  | defaultGroup
  | groupHoldsStores (name : String) (stores : ℕ)
  | groupHasIssuers (name : String) (issuers : ℕ)
  | groupOwnsModels (name : String)
  | ownConsumer
  | noRegistryModel (name : String)
  | twoOwners
  | modelNameRequired
  | noTypes
  | registry (why : Registry.Refusal String)
  | issuerRequired
  | ownedBy (issuer group expected : String)
  | noLongerExists (issuer : String)
  | alreadyExists (issuer group : String)
  | aliasShape (aliasName : String)
  | aliasIsUrl (aliasName : String)
  | aliasTaken (aliasName issuer : String)
  | groupBindsItsStores
  | anchorNeedsGroup
  | anchorNotHttps
  | anchorNeedsAudience
  | malformed

variable {J : Type}

/-! ### Reading -/

namespace Db

variable (db : Db J)

/-- `_s` with retired stores included. -/
def findStore (name : String) : Option (StoreRow J) := db.stores.rows.find? fun σ => σ.name = name

/-- The group of a store, and of a store that there is not, none. -/
def groupOf (name : String) : Option String := (db.findStore name).bind StoreRow.group

/-- The row of an issuer. -/
def findBinding (iss : String) : Option BindingRow := db.bindings.rows.find? fun b => b.row.issuer = iss

/-- `model_owner`. -/
def ownerOf (name : String) : Option (Owner String) :=
  (db.owners.rows.find? fun o => o.name = name).map OwnerRow.owner

/-- The versions of a model, the latest first. -/
def versionsOf (name : String) : List (Version String J) :=
  ((db.registry.rows.find? fun m => m.name = name).map NamedModel.versions).getD []

/-- A name of the registry, as `publish_model` and `apply_model` read it. -/
def registered (name : String) : Registered String J :=
  ⟨"default", db.consumers, db.ownerOf name, db.versionsOf name⟩

/-- The tables that the bindings are listed from. -/
def issuerTables : IssuerTables where
  stores := db.stores.rows.map fun σ => ⟨σ.name, σ.group⟩
  rows := db.bindings.rows.map BindingRow.row
  store_plain := by
    intro s hs
    obtain ⟨σ, -, rfl⟩ := List.mem_map.mp hs
    exact σ.plain
  issuer_ne := by
    intro b hb
    obtain ⟨row, -, rfl⟩ := List.mem_map.mp hb
    exact row.named
  issuer_nodup := by
    rw [List.map_map]
    exact db.bindings.nodup_keys

end Db

/-! ### Writing the trails -/

/-- `_store_group_audit`. -/
def storeGroupAudit (by_ : String) (action : GroupAction) (group : String) (store description : Option String)
    (db : Db J) : Db J :=
  { db with groupTrail := db.groupTrail ++ [⟨action, by_, group, store, description⟩] }

/-- The trigger `issuer_bindings_changed`, once for a row. -/
def issuerBindingsChanged (by_ : String) (action : BindingAction) (row : Binding) (db : Db J) : Db J :=
  { db with
    bindingTrail := db.bindingTrail ++ [⟨action, by_, row⟩]
    revision := db.revision + 1 }

/-- `NULLIF(…, '')`. -/
def nullIfEmpty (s : String) : Option String := if s = "" then none else some s

/-! ## Stores -/

/-- `create_store`: a store in no group. -/
def createStore (name : String) (db : Db J) : Except Refused (Db J) :=
  if plain : plainName name = true then do
    refuseIf (name ∈ regoReserved) (.reservedStoreName name)
    refuseIf ((db.findStore name).isSome) (.storeExists name)
    return { db with stores := db.stores.upsert ⟨name, none, .empty, none, plain⟩ }
  else .error (.invalidStoreName name)

/-- `delete_store`: the row goes, and neither trail hears of it. -/
def deleteStore (name : String) (db : Db J) : Except Refused (Db J) := do
  refuseIf ((db.findStore name).isNone) (.unknownStore name)
  return { db with stores := db.stores.delete fun σ => σ.name = name }

/-- Any change of the model of a store through the model functions, or of its tuples and events. -/
def editModel (name : String) (model : Registry.Store String J) (db : Db J) : Except Refused (Db J) :=
  match db.findStore name with
  | none => .error (.unknownStore name)
  | some σ => .ok { db with stores := db.stores.upsert { σ with model := model } }

/-! ## Groups -/

/-- `create_store_group`. -/
def createStoreGroup (by_ name description : String) (db : Db J) : Except Refused (Db J) := do
  refuseIf (plainName name = false) (.invalidGroupName name)
  refuseIf (name ∈ db.groups) (.groupExists name)
  return storeGroupAudit by_ .create name none (nullIfEmpty description)
    { db with groups := db.groups ++ [name] }

/-- `update_store_group`: the descriptions are not in the tables here. -/
def updateStoreGroup (by_ name : String) (description : Option String) (db : Db J) :
    Except Refused (Db J) := do
  refuseIf (name ∉ db.groups) (.unknownGroup name)
  return storeGroupAudit by_ .update name none description db

/-- `delete_store_group`: false for a group that there is not. The foreign key of `model_owners` refuses
the group of a model; the grants from and to the group go with it. -/
def deleteStoreGroup (by_ name : String) (db : Db J) : Except Refused (Db J × Bool) := do
  refuseIf (name = "default") .defaultGroup
  if name ∉ db.groups then return (db, false)
  let held := db.stores.rows.countP fun σ => σ.group = some name
  refuseIf (0 < held) (.groupHoldsStores name held)
  let trusted := db.bindings.rows.countP fun b => b.row.storeGroup = name
  refuseIf (0 < trusted) (.groupHasIssuers name trusted)
  refuseIf (∃ o ∈ db.owners.rows, o.owner.ownerGroup = some name) (.groupOwnsModels name)
  return (storeGroupAudit by_ .delete name none none
    { db with
      groups := db.groups.filter (· ≠ name)
      consumers := db.consumers.filter fun p => p.1 ≠ name ∧ p.2 ≠ name }, true)

/-- `set_store_group`: attach a store to a group, move it, or detach it. A change also counts the revision
of the bindings up, since a group's issuers reach its stores. -/
def setStoreGroup (by_ store : String) (group : Option String) (db : Db J) : Except Refused (Db J) :=
  match db.findStore store with
  | none => .error (.unknownStore store)
  | some σ => do
    let new := group.bind nullIfEmpty
    refuseIf (∃ g ∈ new, g ∉ db.groups) (.unknownGroup (new.getD ""))
    if σ.group = new then return db
    let moved := { db with stores := db.stores.upsert { σ with group := new }, revision := db.revision + 1 }
    let left := match σ.group with
      | none => moved
      | some g => storeGroupAudit by_ .detach g (some store) none moved
    return match new with
      | none => left
      | some g => storeGroupAudit by_ .attach g (some store) none left

/-! ## Sharing and ownership -/

/-- How a grant is described in the trail. -/
def consumerText (consumer : String) : String := "model_consumer " ++ consumer

/-- `grant_model_consumer`: a grant that exists is not recorded again. -/
def grantModelConsumer (by_ owner consumer : String) (db : Db J) : Except Refused (Db J) := do
  refuseIf (owner ∉ db.groups) (.unknownGroup owner)
  refuseIf (consumer ∉ db.groups) (.unknownGroup consumer)
  refuseIf (owner = consumer) .ownConsumer
  if (owner, consumer) ∈ db.consumers then return db
  return storeGroupAudit by_ .relate owner none (some (consumerText consumer))
    { db with consumers := db.consumers ++ [(owner, consumer)] }

/-- `revoke_model_consumer`, and whether there was a grant. -/
def revokeModelConsumer (by_ owner consumer : String) (db : Db J) : Db J × Bool :=
  if (owner, consumer) ∈ db.consumers then
    (storeGroupAudit by_ .unrelate owner none (some (consumerText consumer))
      { db with consumers := db.consumers.filter (· ≠ (owner, consumer)) }, true)
  else (db, false)

/-- `set_model_owner`. -/
def setModelOwner (by_ name : String) (group store : Option String) (db : Db J) :
    Except Refused (Db J) := do
  refuseIf (db.versionsOf name = []) (.noRegistryModel name)
  refuseIf (group.isSome ∧ store.isSome) .twoOwners
  refuseIf (∃ g ∈ group, g ∉ db.groups) (.unknownGroup (group.getD ""))
  refuseIf (∃ s ∈ store, (db.findStore s).isNone) (.unknownStore (store.getD ""))
  return storeGroupAudit by_ .own (group.getD "default") store (some ("model " ++ name))
    { db with owners := db.owners.upsert ⟨name, ⟨group, store⟩⟩ }

/-! ## The registry -/

/-- What a publication leaves in `model_owners` and `model_registry`. -/
def Db.record (db : Db J) (name : String) (reg : Registered String J) : Db J :=
  { db with
    owners := match reg.owner with
      | none => db.owners
      | some o => db.owners.upsert ⟨name, o⟩
    registry := db.registry.upsert ⟨name, reg.versions⟩ }

/-- The errors of the functions of the registry. -/
def liftRegistry {α : Type} : Except (Registry.Refusal String) α → Except Refused α
  | .error why => .error (.registry why)
  | .ok a => .ok a

/-- `publish_model`: the model of a store becomes the next version of a name. -/
def publish [DecidableEq J] (name store : String) (db : Db J) : Except Refused (Db J) :=
  match db.findStore store with
  | none => .error (.unknownStore store)
  | some σ => do
    let reg ← liftRegistry (Registry.publishModel (db.registered name) ⟨store, σ.group⟩ σ.model)
    return db.record name reg

/-- `publish_model_definition`: a definition that comes from no store is published by the platform. -/
def publishDefinition [DecidableEq J] (name : String) (d : Definition String J) (db : Db J) :
    Except Refused (Db J) := do
  refuseIf (name.toList.all (· = ' ')) .modelNameRequired
  refuseIf (d.types = []) .noTypes
  let reg := db.registered name
  if (reg.versions.head?).any fun v => Registry.modelChecksum v.definition = Registry.modelChecksum d then
    return db
  let owner ← liftRegistry (Registry.claimModelOwner reg ⟨"", some "default"⟩)
  let next := ((reg.versions.head?).map Version.version).getD 0 + 1
  return db.record name { reg with owner := some owner, versions := ⟨next, d⟩ :: reg.versions }

/-- `apply_model`. -/
def apply [DecidableEq J] (catalog : Registry.Database String J) (now : ℤ) (store name : String)
    (version : Option ℕ) (db : Db J) : Except Refused (Db J) :=
  match db.findStore store with
  | none => .error (.unknownStore store)
  | some σ => do
    let (model, v) ← liftRegistry
      (Registry.applyModel catalog now (db.registered name) ⟨store, σ.group⟩ version σ.model)
    return { db with stores := db.stores.upsert { σ with model := model, managed := some (name, v) } }

/-! ## Issuer bindings -/

/-- What the engine takes from PostgreSQL and from the rest of `_validate_issuer_binding`: lower case, and
whether the patterns compile and the maps and the rules of a binding have their shape. -/
structure BindingChecks where
  lower : String → String
  shaped : Binding → Bool

/-- `btrim`. -/
def btrim (s : String) : String :=
  String.ofList ((s.toList.dropWhile (· = ' ')).reverse.dropWhile (· = ' ')).reverse

/-- The text begins with the prefix: `^p` and `p%`. -/
def hasPrefix (p s : String) : Bool := p.toList.isPrefixOf s.toList

/-- The row that is written for a binding: the texts are trimmed. -/
def normalRow (checks : BindingChecks) (b : Binding) : Binding :=
  { b with
    issuer := btrim b.issuer
    aliasName := checks.lower (btrim b.aliasName)
    storeGroup := btrim b.storeGroup
    jwksUrl := btrim b.jwksUrl
    audience := btrim b.audience }

/-- `^[a-z0-9][a-z0-9_-]{0,63}$`. -/
def aliasShaped (a : String) : Bool :=
  match a.toList with
  | [] => false
  | c :: cs =>
    let head (c : Char) : Bool := c.isLower || c.isDigit
    head c && (cs.all fun c => head c || c == '_' || c == '-') && decide (cs.length ≤ 63)

/-- The checks on the alias of a row. -/
def checkAlias (b : Binding) (db : Db J) : Except Refused Unit := do
  if b.aliasName = "" then return ()
  refuseIf (aliasShaped b.aliasName = false) (.aliasShape b.aliasName)
  refuseIf (hasPrefix "http" b.aliasName) (.aliasIsUrl b.aliasName)
  match db.bindings.rows.find? fun o => o.row.aliasName = b.aliasName ∧ o.row.issuer ≠ b.issuer with
  | none => return ()
  | some other => .error (.aliasTaken b.aliasName other.row.issuer)

/-- `_validate_issuer_binding`: a group's issuer binds the stores of the group, and keys of an issuer's own
are only ever a group's, over https and with an audience. -/
def validateIssuerBinding (checks : BindingChecks) (b : Binding) (db : Db J) : Except Refused Unit := do
  refuseIf (b.storeGroup ≠ "" ∧ b.storeGroup ∉ db.groups) (.unknownGroup b.storeGroup)
  refuseIf (b.storeGroup ≠ "" ∧ b.stores ≠ []) .groupBindsItsStores
  refuseIf (b.jwksUrl ≠ "" ∧ b.storeGroup = "") .anchorNeedsGroup
  refuseIf (b.jwksUrl ≠ "" ∧ hasPrefix "https://" b.jwksUrl = false) .anchorNotHttps
  refuseIf (b.jwksUrl ≠ "" ∧ b.audience = "" ∧ b.audiences = []) .anchorNeedsAudience
  refuseIf (checks.shaped b = false) .malformed

/-- The row is written, and the trigger fires. -/
def writeBinding (by_ : String) (action : BindingAction) (row : BindingRow) (db : Db J) : Db J :=
  issuerBindingsChanged by_ action row.row { db with bindings := db.bindings.upsert row }

/-- The caller expects the row to belong to this group: `"*"` for any, and `""` for the platform. -/
def expects (expectGroup : String) (o : BindingRow) : Bool :=
  expectGroup == "*" || o.row.storeGroup == expectGroup

/-- The row of `set_issuer_binding` is written if the caller's expectation of the row in its place holds:
the group that it belongs to, and whether there is one. -/
def putBinding (checks : BindingChecks) (by_ : String) (row : BindingRow) (expectGroup : String)
    (expectExists : Option Bool) (db : Db J) : Except Refused (Db J) :=
  let admitted : Except Refused Unit := do
    checkAlias row.row db
    validateIssuerBinding checks row.row db
  match expectExists, db.findBinding row.row.issuer with
  | none, none => do
    refuseIf (expectGroup ≠ "*" ∧ expectGroup ≠ "") (.noLongerExists row.row.issuer)
    admitted
    return writeBinding by_ .insert row db
  | none, some o => do
    refuseIf (expects expectGroup o = false) (.ownedBy row.row.issuer o.row.storeGroup expectGroup)
    admitted
    return writeBinding by_ .update row db
  | some true, none => do
    admitted
    .error (.noLongerExists row.row.issuer)
  | some true, some o => do
    admitted
    refuseIf (expects expectGroup o = false) (.ownedBy row.row.issuer o.row.storeGroup expectGroup)
    return writeBinding by_ .update row db
  | some false, none => do
    admitted
    return writeBinding by_ .insert row db
  | some false, some o => do
    admitted
    .error (.alreadyExists row.row.issuer o.row.storeGroup)

/-- `set_issuer_binding`. -/
def setIssuerBinding (checks : BindingChecks) (by_ : String) (b : Binding) (expectGroup : String)
    (expectExists : Option Bool) (db : Db J) : Except Refused (Db J) :=
  if named : (normalRow checks b).issuer ≠ "" then
    putBinding checks by_ ⟨normalRow checks b, named⟩ expectGroup expectExists db
  else .error .issuerRequired

/-- `resolve_issuer`: the URL itself, or the issuer of an alias. -/
def resolveIssuer (checks : BindingChecks) (ref : String) (db : Db J) : Option String :=
  let r := btrim ref
  if r = "" then none
  else if hasPrefix "http://" r ∨ hasPrefix "https://" r then some r
  else (db.bindings.rows.find? fun b => b.row.aliasName = checks.lower r).map fun b => b.row.issuer

/-- `delete_issuer_binding`, and whether there was a row. -/
def deleteIssuerBinding (checks : BindingChecks) (by_ ref expectGroup : String) (db : Db J) :
    Except Refused (Db J × Bool) :=
  let iss := (resolveIssuer checks ref db).getD (btrim ref)
  match db.findBinding iss with
  | none => .ok (db, false)
  | some o => do
    refuseIf (expects expectGroup o = false) (.ownedBy iss o.row.storeGroup expectGroup)
    return (issuerBindingsChanged by_ .delete o.row
      { db with bindings := db.bindings.delete fun b => b.row.issuer = iss }, true)

/-! ## The transactions -/

variable (J) in
/-- A call of one of the functions. -/
inductive Call
  | createStore (name : String)
  | deleteStore (name : String)
  | editModel (store : String) (model : Registry.Store String J)
  | createStoreGroup (name description : String)
  | updateStoreGroup (name : String) (description : Option String)
  | deleteStoreGroup (name : String)
  | setStoreGroup (store : String) (group : Option String)
  | grantModelConsumer (owner consumer : String)
  | revokeModelConsumer (owner consumer : String)
  | setModelOwner (name : String) (group store : Option String)
  | publish (name store : String)
  | publishDefinition (name : String) (d : Definition String J)
  | apply (now : ℤ) (store name : String) (version : Option ℕ)
  | setIssuerBinding (b : Binding) (expectGroup : String) (expectExists : Option Bool)
  | deleteIssuerBinding (ref expectGroup : String)

variable (J) in
/-- A call and who makes it: `authz.performed_by`, or the role of the connection. -/
structure Event where
  performedBy : String
  call : Call J

variable [DecidableEq J] (catalog : Registry.Database String J) (checks : BindingChecks)

/-- What a call returns. -/
def exec (db : Db J) (e : Event J) : Except Refused (Db J) :=
  match e.call with
  | .createStore name => createStore name db
  | .deleteStore name => deleteStore name db
  | .editModel store model => editModel store model db
  | .createStoreGroup name description => createStoreGroup e.performedBy name description db
  | .updateStoreGroup name description => updateStoreGroup e.performedBy name description db
  | .deleteStoreGroup name => (deleteStoreGroup e.performedBy name db).map Prod.fst
  | .setStoreGroup store group => setStoreGroup e.performedBy store group db
  | .grantModelConsumer owner consumer => grantModelConsumer e.performedBy owner consumer db
  | .revokeModelConsumer owner consumer => .ok (revokeModelConsumer e.performedBy owner consumer db).1
  | .setModelOwner name group store => setModelOwner e.performedBy name group store db
  | .publish name store => publish name store db
  | .publishDefinition name d => publishDefinition name d db
  | .apply now store name version => apply catalog now store name version db
  | .setIssuerBinding b expectGroup expectExists =>
    setIssuerBinding checks e.performedBy b expectGroup expectExists db
  | .deleteIssuerBinding ref expectGroup =>
    (deleteIssuerBinding checks e.performedBy ref expectGroup db).map Prod.fst

/-- A call that raises leaves the tables as they are. -/
def step (db : Db J) (e : Event J) : Option (Db J) := (exec catalog checks db e).toOption

end Groups

end PgAuthz
