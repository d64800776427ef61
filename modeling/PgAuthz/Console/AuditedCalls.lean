import Mathlib.Data.List.Sort
import PgAuthz.Console.Namespaces
import PgAuthz.Transition.Attribution

/-!
# The engine calls of the console

Every change of the console is a sequence of engine calls in one transaction, which first sets
`authz.performed_by` to the person. A call writes rows, for which the audit triggers record entries.
The engine functions that write tuples, and the one that removes a type, set `authz.performed_by` again
from an argument of their own, which is empty unless the caller passes the person along; the others
leave it alone.

## Main definitions

* `World`: what the transaction of a change reads and writes
* `Entry`: what a row of the audit tables says
* `RoleCall`, `ModelEdit.call`, `TupleChange.call`: engine calls, with their entries and the name they set
* `ConsoleChange`, `transact`: the changes of the console, and their transactions

## Main results

* `handle_eq_ok_iff`: the handler of a change of roles asks its guards and makes its calls
* `roles_of_transact`: the calls of a change of roles do what its handler does
* `store_of_transact`: so do the calls of a request on a store
-/

namespace PgAuthz.Console

open Attribution (Signed Statement runAll runAll_cons)

/-! ## What is written and what is recorded -/

/-- A row of `authz.issuer_bindings`; its other columns are one text. -/
structure BindingRow where
  issuer : String
  storeGroup : String
  jwksUrl : String
  aliasName : Option String
  settings : String
deriving DecidableEq, Repr

/-- What a transaction reads and writes: the console's own store, the store of the request, and the
issuer bindings. Of the tuples of the console some have an expiry or a context, and some have expired
and are not shown. -/
structure World where
  roles : Roles
  qualified : List RoleTuple
  expired : List RoleTuple
  store : ManagedStore
  bindings : Keyed BindingRow.issuer

/-- The actions of the audit tables. -/
inductive AuditAction
  | insert
  | update
  | delete
  | typeRemoved
  | storeRetired
deriving DecidableEq, Repr

/-- A row that an audit table records: of the console's own store, of the store of the request, or of
the issuer bindings. Types and type restrictions have no such table. -/
inductive Audited
  | role (t : RoleTuple)
  | tuple (t : TupleRow)
  | rule (r : RuleRow)
  | condition (c : ConditionRow)
  | gate (g : GateRow)
  | grantRule (g : GrantRuleRow)
  | constraint (c : ConstraintRow)
  | typeName (name : String)
  | wholeStore
  | binding (b : BindingRow)
deriving DecidableEq, Repr

/-- An audit row, but for its `performed_by`. -/
structure Entry where
  action : AuditAction
  row : Audited
deriving DecidableEq, Repr

/-- A call of the engine within the transaction of a change. -/
abbrev Call := Statement World StoreRefusal Entry

/-- A version of a model in the registry: the types that it has, and the rest as text. -/
structure ModelVersion where
  types : List String
  definition : String
deriving DecidableEq, Repr

/-- The role that the engine acts for, and what it does in code that is not embedded: the checks of
`Checks`, reading a model from its text, bringing a store to a version once its stale types are gone,
whether a tuple grants nothing that the store does not grant without it, and the checks of an issuer
binding. None of these sets `authz.performed_by`. -/
structure Engine extends Checks where
  effectiveRole : String
  importModel : String → ManagedStore → Except EngineError (ManagedStore × List Entry)
  applyRest : ModelVersion → ManagedStore → Except EngineError (ManagedStore × List Entry)
  redundant : ManagedStore → TupleRow → Bool
  validBinding : Keyed BindingRow.issuer → BindingRow → Bool

/-- The engine as the console connects to it. -/
def consoleEngine : Engine where
  toChecks := openChecks
  effectiveRole := "console"
  importModel _ st := .ok (st, [])
  applyRest _ st := .ok (st, [])
  redundant _ _ := false
  validBinding _ _ := true

/-- The text under which the transaction of a person is recorded. -/
def Principal.tag (p : Principal) : String := p.typ.name ++ ":" ++ p.id

section Entries

variable {α κ : Type} {key : α → κ} [DecidableEq κ] [DecidableEq α]

/-- The entries of an upsert that leaves an equal row alone. -/
def upserted (f : α → Audited) (T : Keyed key) (a : α) : List Entry :=
  match T.find? (key a) with
  | none => [⟨.insert, f a⟩]
  | some old => if old = a then [] else [⟨.delete, f old⟩, ⟨.insert, f a⟩]

/-- The entries of a deletion that keeps the rows of a condition. -/
def dropped (f : α → Audited) (T : Keyed key) (keep : α → Bool) : List Entry :=
  (T.rows.filter (!keep ·)).map fun a => ⟨.delete, f a⟩

omit [DecidableEq κ] [DecidableEq α] in
theorem dropped_eq_nil {f : α → Audited} {T : Keyed key} {keep : α → Bool} :
    dropped f T keep = [] ↔ ∀ a ∈ T, keep a = true := by
  simp [dropped, List.filter_eq_nil_iff, Keyed.mem_rows]

theorem upserted_eq_nil {f : α → Audited} {T : Keyed key} {a : α} :
    upserted f T a = [] ↔ a ∈ T := by
  unfold upserted
  cases hfind : T.find? (key a) with
  | none =>
    refine iff_of_false (by simp) fun ha => ?_
    rw [Keyed.find?_eq_some.mpr ⟨ha, rfl⟩] at hfind
    cases hfind
  | some old =>
    obtain ⟨hold, hkey⟩ := Keyed.find?_eq_some.mp hfind
    show (if old = a then [] else [_, _]) = [] ↔ a ∈ T
    by_cases heq : old = a
    · rw [if_pos heq]
      exact iff_of_true rfl (heq ▸ hold)
    · rw [if_neg heq]
      exact iff_of_false (List.cons_ne_nil _ _) fun ha => heq (Keyed.eq_of_key hold ha hkey)

end Entries

/-! ## Calls on the store of the request -/

section Calls

variable (env : Engine)

/-- A call that reads and writes the store of the request. -/
def onStore (sets : Option String) (f : ManagedStore → Except EngineError (ManagedStore × List Entry)) :
    Call where
  sets := sets
  run w := ((f w.store).mapError .engine).map fun r => ({ w with store := r.1 }, r.2)

/-- What the removal of a type records: the rows that go with it, and the type by its name. -/
def removedEntries (st : ManagedStore) (name : String) : List Entry :=
  dropped .tuple st.tuples (fun t => !namesType name t) ++
    dropped .grantRule st.grantRules (fun g => g.objectType ≠ name) ++
    dropped .constraint st.constraints (fun c => c.objectType ≠ name) ++
    dropped .rule st.rules (fun r => r.objectType ≠ name) ++ [⟨.typeRemoved, .typeName name⟩]

/-- What an operation of the editor records. A rule that is there is recorded anew even where its flag
stays the same. -/
def ModelEdit.entries (st : ManagedStore) : ModelEdit → List Entry
  | .removeType name _ => removedEntries st name
  | .addRule objectType relation body groupId groupOp negated wildcard =>
    match st.rules.rows.find? fun r => r.objectType = objectType && r.relation = relation &&
        r.body = body && r.groupId = groupId && r.negated = negated with
    | some r => [⟨.delete, .rule r⟩, ⟨.insert, .rule { r with allowObjectWildcard := wildcard }⟩]
    | none =>
      [⟨.insert, .rule ⟨st.nextId, objectType, relation, body, groupId, groupOp, negated, wildcard⟩⟩]
  | .removeRule id => dropped .rule st.rules fun r => r.id ≠ id
  | addCondition name expression lang requiredContext description =>
    upserted .condition st.conditions ⟨name, expression, lang, requiredContext, nullable description⟩
  | removeCondition name => dropped .condition st.conditions fun c => c.name ≠ name
  | .addGate objectType relation name spec =>
    match env.gateSpec st spec relation with
    | some s => upserted .gate st.gates ⟨objectType, relation, name, s⟩
    | none => []
  | removeGate objectType relation name => dropped .gate st.gates fun g =>
      !(g.objectType = objectType && g.relation = relation && g.name = name)
  | .addGrantRule objectType relation requires requiresRevoke recordAs =>
    upserted .grantRule st.grantRules ⟨objectType, relation, requires, requiresRevoke, recordAs⟩
  | removeGrantRule objectType relation => dropped .grantRule st.grantRules fun g =>
      !(g.objectType = objectType && g.relation = relation)
  | .setRelationConstraint objectType relation maxDirect maxEffective minDirect =>
    upserted .constraint st.constraints ⟨objectType, relation, maxDirect, maxEffective, minDirect⟩
  | removeRelationConstraint objectType relation => dropped .constraint st.constraints fun c =>
      !(c.objectType = objectType && c.relation = relation)
  -- types, relations and type restrictions are not audited
  | addType .. | .setTypeNamespace .. | .setTypeLabels .. | addRelation .. | .setRelationMetadata ..
  | addRestriction .. | removeRestriction _ | .setPayloadSchema .. => []

/-- The editor never passes the person on, and only `model_remove_type` asks for them. -/
def ModelEdit.sets : ModelEdit → Option String
  | .removeType .. => some ""
  | _ => none

/-- The call of an operation of the editor. -/
def ModelEdit.call (e : ModelEdit) : Call :=
  onStore e.sets fun st => (e.apply env.toChecks st).map fun st' => (st', e.entries env st)

/-- The row that a batch leaves for a key. -/
def permanent (st : ManagedStore) (key : TupleKey) : TupleRow :=
  match st.tuples.find? key with
  | some old => { old with expiresAt := none }
  | none => ⟨key, none, none, none⟩

/-- What a statement on a tuple records. -/
def TupleChange.entries (st : ManagedStore) : TupleChange → List Entry
  | upsert row => upserted .tuple st.tuples row
  | insert key => upserted .tuple st.tuples (permanent st key)
  | delete key => dropped .tuple st.tuples fun t => !(t.key = key && t.visible env.toChecks)

/-- `write_tuple`, `write_tuples_jsonb` and `delete_tuple`, with their `p_performed_by`. -/
def TupleChange.call (performedBy : String) (c : TupleChange) : Call :=
  onStore (some performedBy) fun st => (c.apply env.toChecks st).map fun st' => (st', c.entries env st)

/-- The tuples of a condition go, with their `p_performed_by`. -/
def deleteWhere (performedBy : String) (known : ManagedStore → Except EngineError Unit)
    (gone : TupleRow → Bool) (record : Bool) : Call :=
  onStore (some performedBy) fun st => do
    known st
    return ({ st with tuples := st.tuples.filter (!gone ·) },
      if record then dropped .tuple st.tuples (!gone ·) else [])

/-- `delete_user_tuples`. -/
def deleteUserTuples (performedBy userType userId : String) : Call :=
  deleteWhere performedBy (fun st => do let _ ← knownType st userType)
    (fun t => t.key.userType = userType && t.key.userId = userId && t.visible env.toChecks) true

/-- `cleanup_expired_tuples`. -/
def cleanupExpiredTuples (performedBy : String) (grace : ℤ) : Call :=
  deleteWhere performedBy (fun _ => .ok ()) (fun t => t.expiresAt.any (· ≤ env.now - grace)) true

/-- `erase_subject`, on either side of a tuple. Purging the audit trail takes the new rows too. -/
def eraseSubject (performedBy userType userId : String) (purgeAudit : Bool) : Call :=
  deleteWhere performedBy (fun st => do let _ ← knownType st userType)
    (fun t => (t.key.userType = userType && t.key.userId = userId) ||
      (t.key.objectType = userType && t.key.objectId = userId)) (!purgeAudit)

/-- `retire_store`: the tuples go with their partitions, and one row says so. -/
def retireStoreCall : Call :=
  onStore none fun st =>
    .ok ({ st with tuples := st.tuples.filter fun _ => false }, [⟨.storeRetired, .wholeStore⟩])

/-- The types of a store that a version of a model lacks, by name. -/
def staleTypes (st : ManagedStore) (version : ModelVersion) : List String :=
  ((st.types.rows.map (·.name)).filter (· ∉ version.types)).mergeSort

/-- `apply_model`: the stale types go first, without the person, and then the rest follows. -/
def applyModel (st : ManagedStore) (version : ModelVersion) : List Call :=
  (staleTypes st version).map (fun name => ModelEdit.call env (.removeType name false)) ++
    [onStore none (env.applyRest version)]

/-- `find_redundant_tuples`: the plain tuples of a scope that grant nothing by themselves. -/
def findRedundantTuples (st : ManagedStore) (objectType relation : Option String) : List TupleKey :=
  (st.tuples.rows.filter fun t => t.visible env.toChecks && t.key.userRelation.isNone &&
    t.key.userId ≠ "*" && t.key.objectId ≠ "*" && objectType.all (t.key.objectType = ·) &&
    relation.all (t.key.relation = ·) && env.redundant st t).map (·.key)

/-- `cleanup_redundant_tuples`. -/
def cleanupRedundantTuples (st : ManagedStore) (objectType relation : Option String) : List Call :=
  (findRedundantTuples env st objectType relation).map fun key =>
    TupleChange.call env "cleanup_redundant_tuples" (.delete key)

end Calls

/-! ## Calls on the console's own store -/

/-- The calls of the handlers that change roles. -/
inductive RoleCall
  | write (t : RoleTuple)
  | delete (t : RoleTuple)
  | ensureOwner (role : Rel) (object : Obj)
  | setTypeNamespace (name ns : String)
  | createStoreGroup (g : String)
  | deleteStoreGroup (g : String)
  | setStoreGroup (s g : String)
  | createStore (s : String)
  | deleteStoreReceipt (s : String)
deriving DecidableEq, Repr

/-- A store without rows. -/
def ManagedStore.empty : ManagedStore where
  types := ⟨[], List.nodup_nil⟩
  relations := ⟨[], List.nodup_nil⟩
  rules := ⟨[], List.nodup_nil⟩
  restrictions := ⟨[], List.nodup_nil⟩
  conditions := ⟨[], List.nodup_nil⟩
  gates := ⟨[], List.nodup_nil⟩
  grantRules := ⟨[], List.nodup_nil⟩
  constraints := ⟨[], List.nodup_nil⟩
  tuples := ⟨[], List.nodup_nil⟩
  events := []
  nextId := 0
  rules_lt := nofun
  restrictions_lt := nofun

/-- What deleting a store records. -/
def storeEntries (st : ManagedStore) : List Entry :=
  dropped .tuple st.tuples (fun _ => false) ++ dropped .rule st.rules (fun _ => false) ++
    dropped .condition st.conditions (fun _ => false) ++
    dropped .grantRule st.grantRules (fun _ => false) ++
    dropped .constraint st.constraints (fun _ => false) ++ dropped .gate st.gates (fun _ => false)

/-- What a call does to the roles. The refusals of the functions on stores and groups are those of the
handler. -/
def RoleCall.onRoles (st : Roles) : RoleCall → Except Refusal Roles
  | write t => (writeTuple st.tuples t).map fun T => { st with tuples := T }
  | delete t => (deleteTuple st.tuples t).map fun T => { st with tuples := T }
  | .ensureOwner role object => (Console.ensureOwner st role object).map fun _ => st
  | setTypeNamespace .. => .ok st
  | createStoreGroup g => .ok { st with groups := st.groups ++ [g] }
  | deleteStoreGroup g => .ok { st with groups := st.groups.filter (· ≠ g) }
  | setStoreGroup s g => .ok (st.setStoreGroup s g)
  | createStore s => .ok { st with stores := st.stores ++ [(s, "")] }
  | .deleteStoreReceipt s => .ok { st with stores := st.stores.filter (·.1 ≠ s) }

/-- What a call records. Writing a tuple that is there for good changes nothing; one with an expiry or
a context is made plain, and one that has expired comes back. -/
def RoleCall.entries (w : World) : RoleCall → List Entry
  | write t =>
    if t ∈ w.roles.tuples.rows ∧ t ∉ w.qualified then []
    else if t ∈ w.roles.tuples.rows ∨ t ∈ w.expired then [⟨.delete, .role t⟩, ⟨.insert, .role t⟩]
    else [⟨.insert, .role t⟩]
  | delete t => if t ∈ w.roles.tuples.rows then [⟨.delete, .role t⟩] else []
  | .deleteStoreReceipt _ => storeEntries w.store
  | _ => []

/-- What a call does to the rest of the world. -/
def RoleCall.onWorld (w : World) : RoleCall → Except StoreRefusal World
  | write t => .ok { w with
      qualified := w.qualified.filter (· ≠ t)
      expired := w.expired.filter (· ≠ t) }
  | delete t => .ok { w with qualified := w.qualified.filter (· ≠ t) }
  | .setTypeNamespace name ns =>
    ((Console.setTypeNamespace w.store name ns).mapError .engine).map fun st => { w with store := st }
  | .deleteStoreReceipt _ => .ok { w with store := .empty }
  | _ => .ok w

/-- No handler passes the person to `write_tuple` or `delete_tuple` of the console's own store. -/
def RoleCall.sets : RoleCall → Option String
  | write _ | delete _ => some ""
  | _ => none

/-- The call. -/
def RoleCall.call (c : RoleCall) : Call where
  sets := c.sets
  run w := do
    let st ← (c.onRoles w.roles).mapError .console
    let w' ← c.onWorld w
    return ({ w' with roles := st }, c.entries w)

/-- The calls of a change of roles, in the order of its handler. -/
def roleCalls (cfg : Config) (w : World) : RoleChange → List RoleCall
  | .accessAdd _ s req => [.write (req.on ⟨.store, s⟩)]
  | .accessRemove _ s items =>
    (items.map (·.on ⟨.store, s⟩)).map .delete ++ [.ensureOwner .owner ⟨.store, s⟩]
  | .namespaceAccessAdd _ s ns req => (namespaceLinks s ns ++ [req.on (nsObject s ns)]).map .write
  | .namespaceAccessRemove _ s ns items => (items.map (·.on (nsObject s ns))).map .delete
  | .namespaceRename _ s ns renamed =>
    let roles := tuplesOf w.roles (nsObject s ns)
    (w.store.types.rows.filter (·.ns = some ns)).map (fun t => .setTypeNamespace t.name renamed) ++
      roles.flatMap (fun t => [.delete t, .write { t with object := nsObject s renamed }]) ++
      if roles = [] then [] else
        .delete (.link ⟨.store, s⟩ .store (nsObject s ns)) :: (namespaceLinks s renamed).map .write
  | .groupAccessAdd _ g req => [.write (req.on ⟨.group, g⟩)]
  | .groupAccessRemove _ g items => (items.map (·.on ⟨.group, g⟩)).map .delete
  | .platformAccessAdd _ req => [.write (req.on cfg.platform)]
  | .platformAccessRemove _ items =>
    (items.map (·.on cfg.platform)).map .delete ++ [.ensureOwner .admin cfg.platform]
  | .groupCreate _ g => [.createStoreGroup g, .write (.link cfg.platform .platform ⟨.group, g⟩)]
  | .groupDelete _ g => .deleteStoreGroup g :: (tuplesOf w.roles ⟨.group, g⟩).map .delete
  | .storeGroupSet _ s g =>
    let old := (w.roles.stores.lookup s).getD ""
    if old = g then [] else
      .setStoreGroup s g :: (groupLink s old).map .delete ++ (groupLink s g).map .write
  | .createStore p s g =>
    .createStore s :: (if g = "" then [] else [.setStoreGroup s g]) ++
      (groupLink s g ++ claimTuples cfg p s).map .write
  | .adoptStore p s => (claimTuples cfg p s).map .write
  | .deleteStore _ s _ => .deleteStoreReceipt s :: (tuplesOf w.roles ⟨.store, s⟩).map .delete

/-! ## Changes of the console -/

/-- The handlers whose transactions write no row of an audited table. -/
inductive Unaudited
  | groupSettings (g : String)
  | modelConsumer (g : String)
  | storeSettings (s : String)
  | recorderActions (s : String)
  | purgeEvents (s : String)
  | export (s : String)
  | publish (s : String)
  | scenariosSave (s : String)
  | partitions
  | signinSet (object : Obj)
  | issuersThroughApi (object : Obj)
deriving DecidableEq, Repr

/-- The capability that such a handler asks for, and its object. -/
def Unaudited.gate (cfg : Config) : Unaudited → Rel × Obj
  | groupSettings g | modelConsumer g => (.canManageAccess, ⟨.group, g⟩)
  | storeSettings s | recorderActions s | purgeEvents s => (.canManageAccess, ⟨.store, s⟩)
  | .export s => (.canExport, ⟨.store, s⟩)
  | publish s => (.canPublish, ⟨.store, s⟩)
  | scenariosSave s => (.canEditModel, ⟨.store, s⟩)
  | partitions => (.canManageAccess, cfg.platform)
  | signinSet object | issuersThroughApi object => (.canManageIssuers, object)

/-- A change that the console makes for a signed-in person. -/
inductive ConsoleChange
  | roles (c : RoleChange)
  | store (p : Principal) (s : String) (req : StoreRequest)
  | modelDsl (p : Principal) (s dsl : String)
  | apply (p : Principal) (s : String) (version : ModelVersion)
  | offboard (p : Principal) (s userType userId : String)
  | cleanupExpired (p : Principal) (s : String) (grace : ℤ)
  | cleanupRedundant (p : Principal) (s : String) (objectType relation : Option String)
  | subjectErase (p : Principal) (s userType userId : String) (purgeAudit : Bool)
  | retireStore (p : Principal) (s confirm : String)
  | issuerSet (p : Principal) (b : BindingRow)
  | issuerDelete (p : Principal) (issuer : String)
  | unaudited (p : Principal) (op : Unaudited)
deriving DecidableEq, Repr

/-- The signed-in person. -/
def ConsoleChange.person : ConsoleChange → Principal
  | roles c => c.person
  | store p .. | modelDsl p .. | apply p .. | offboard p .. | cleanupExpired p .. | cleanupRedundant p ..
  | subjectErase p .. | retireStore p .. | issuerSet p _ | issuerDelete p _ | unaudited p _ => p

/-- The statements on tuples of a request, with who they name: the person, and for a share the actor. -/
def StoreRequest.performedBy (p : Principal) : StoreRequest → String
  | share _ _ actorType actorId _ _ => actorType ++ ":" ++ actorId
  | _ => p.tag

/-- The call of a change of the store. -/
def StoreChange.call (env : Engine) (performedBy : String) : StoreChange → Call
  | edit e => e.call env
  | tuple c => c.call env performedBy

/-- `resolve_issuer`: the row of an issuer by its name or its alias. -/
def bindingRow (T : Keyed BindingRow.issuer) (issuer : String) : Option BindingRow :=
  T.rows.find? fun b => b.issuer = issuer || b.aliasName = some issuer

/-- The object that decides who may set a binding: the platform, or the group of the row. -/
def issuerObject (cfg : Config) (T : List RoleTuple) (p : Principal) (current : Option BindingRow)
    (b : BindingRow) : Except Refusal Obj :=
  if canQ cfg T p .canManageIssuers cfg.platform then .ok cfg.platform
  else
    match current with
    | some row =>
      if row.storeGroup = "" ∨ b.storeGroup ≠ row.storeGroup then
        .error (.forbidden .canManageIssuers cfg.platform)
      else .ok ⟨.group, row.storeGroup⟩
    | none =>
      if b.storeGroup = "" ∨ b.jwksUrl = "" then .error (.forbidden .canManageIssuers cfg.platform)
      else .ok ⟨.group, b.storeGroup⟩

/-- `set_issuer_binding`. -/
def setIssuerBinding (env : Engine) (performedBy : String) (b : BindingRow) : Call where
  sets := some performedBy
  run w := do
    guardOr (.engine (.invalid "issuer binding")) (env.validBinding w.bindings b)
    let old := bindingRow w.bindings b.issuer
    let row := { b with issuer := old.elim b.issuer (·.issuer) }
    return ({ w with bindings := w.bindings.upsert row },
      [⟨if old.isSome then .update else .insert, .binding row⟩])

/-- `delete_issuer_binding`, and the error of the handler where there is none. -/
def deleteIssuerBinding (performedBy issuer : String) : Call where
  sets := some performedBy
  run w :=
    match bindingRow w.bindings issuer with
    | none => .error (.console (.badRequest "no binding for issuer"))
    | some b => .ok ({ w with bindings := w.bindings.filter (· ≠ b) }, [⟨.delete, .binding b⟩])

section Transactions

variable (cfg : Config) (env : Engine) (w : World)

/-- A guard on a capability. -/
def asConsole (x : Except Refusal Unit) : Except StoreRefusal Unit := x.mapError .console

/-- The calls of a change that its handler lets through. -/
def ConsoleChange.calls : ConsoleChange → Except StoreRefusal (List Call)
  | roles c => do
    let _ ← (handle cfg w.roles c).mapError .console
    return (roleCalls cfg w c).map (·.call)
  | store p s req => do
    let _ ← handleStoreRequest cfg w.roles.tuples.rows p s env.toChecks w.store req
    return req.changes.map (·.call env (req.performedBy p))
  | modelDsl p s dsl => do
    asConsole (requireStore cfg w.roles p s .canEditModel)
    return [onStore none (env.importModel dsl)]
  | apply p s version => do
    asConsole (requireStore cfg w.roles p s .canRollout)
    return applyModel env w.store version
  | offboard p s userType userId => do
    asConsole (requireStore cfg w.roles p s .canGrant)
    asConsole (guardOr (.badRequest "user_type and user_id are required") (userType ≠ "" ∧ userId ≠ ""))
    return [deleteUserTuples env p.tag userType userId]
  | cleanupExpired p s grace => do
    asConsole (requireStore cfg w.roles p s .canManageAccess)
    return [cleanupExpiredTuples env p.tag grace]
  | cleanupRedundant p s objectType relation => do
    asConsole (requireStore cfg w.roles p s .canManageAccess)
    return cleanupRedundantTuples env w.store objectType relation
  | subjectErase p s userType userId purgeAudit => do
    asConsole (guardOr (.badRequest "invalid store name") (validName s))
    asConsole (require cfg w.roles p .canManageAccess cfg.platform)
    return [eraseSubject p.tag userType userId purgeAudit]
  | retireStore p s confirm => do
    asConsole (requireLifecycle cfg w.roles p s confirm)
    return [retireStoreCall]
  | issuerSet p b => do
    asConsole (guardOr (.badRequest "issuer is required") (b.issuer ≠ ""))
    let object ← (issuerObject cfg w.roles.tuples.rows p (bindingRow w.bindings b.issuer) b).mapError .console
    asConsole (require cfg w.roles p .canManageIssuers object)
    return [setIssuerBinding env p.tag b]
  | issuerDelete p issuer => do
    asConsole (guardOr (.badRequest "issuer is required") (issuer ≠ ""))
    asConsole (require cfg w.roles p .canManageIssuers cfg.platform)
    return [deleteIssuerBinding p.tag issuer]
  | unaudited p op => do
    asConsole (require cfg w.roles p (op.gate cfg).1 (op.gate cfg).2)
    return []

/-- `asPersonAuthorized`: the setting is the person, and the calls of the handler follow. -/
def transact (c : ConsoleChange) : Except StoreRefusal (World × List (Signed Entry)) := do
  let calls ← c.calls cfg env w
  runAll env.effectiveRole c.person.tag w calls

end Transactions

/-! ## The calls are those of the handlers -/

theorem mapError_eq_ok {ε ε' α : Type} {x : Except ε α} {f : ε → ε'} {a : α} :
    x.mapError f = .ok a ↔ x = .ok a := by
  cases x <;> simp [Except.mapError]

/-- What a call on the console's own store does. -/
theorem RoleCall.run_eq_ok {w w' : World} {entries : List Entry} {c : RoleCall}
    (h : c.call.run w = .ok (w', entries)) :
    c.onRoles w.roles = .ok w'.roles ∧ (∃ v, c.onWorld w = .ok v ∧ w'.qualified = v.qualified) ∧
      entries = c.entries w := by
  simp only [RoleCall.call, bind_eq_ok, mapError_eq_ok] at h
  obtain ⟨st, hst, v, hv, h⟩ := h
  obtain ⟨rfl, rfl⟩ := Prod.mk.inj (Except.ok.inj h)
  exact ⟨hst, ⟨v, hv, rfl⟩, rfl⟩

/-- The roles after a list of calls. -/
def runRoles (st : Roles) (calls : List RoleCall) : Except Refusal Roles :=
  calls.foldlM RoleCall.onRoles st

section Handlers

variable {cfg : Config} {st st' : Roles}

theorem runRoles_cons {c : RoleCall} {cs : List RoleCall} :
    runRoles st (c :: cs) = c.onRoles st >>= fun st' => runRoles st' cs :=
  List.foldlM_cons

theorem runRoles_append {cs cs' : List RoleCall} :
    runRoles st (cs ++ cs') = runRoles st cs >>= fun st' => runRoles st' cs' :=
  List.foldlM_append

theorem runRoles_of_runAll {role setting : String} {w w' : World} {log : List (Signed Entry)}
    {calls : List RoleCall} (h : runAll role setting w (calls.map (·.call)) = .ok (w', log)) :
    runRoles w.roles calls = .ok w'.roles := by
  induction calls generalizing setting w log with
  | nil =>
    obtain ⟨rfl, -⟩ := Prod.mk.inj (Except.ok.inj h)
    rfl
  | cons c cs ih =>
    obtain ⟨w₁, _, _, hc, hcs, -⟩ := runAll_cons.mp h
    rw [runRoles_cons, (RoleCall.run_eq_ok hc).1]
    exact ih hcs

theorem runRoles_write {ts : List RoleTuple} : runRoles st (ts.map .write) = st.write ts := by
  induction ts generalizing st with
  | nil => rfl
  | cons t ts ih =>
    rw [List.map_cons, runRoles_cons, Roles.write, List.foldlM_cons, RoleCall.onRoles]
    cases writeTuple st.tuples t with
    | error e => rfl
    | ok T => exact ih

theorem runRoles_delete {ts : List RoleTuple} : runRoles st (ts.map .delete) = st.delete ts := by
  induction ts generalizing st with
  | nil => rfl
  | cons t ts ih =>
    rw [List.map_cons, runRoles_cons, Roles.delete, List.foldlM_cons, RoleCall.onRoles]
    cases deleteTuple st.tuples t with
    | error e => rfl
    | ok T => exact ih

theorem runRoles_move {target : Obj} {ts : List RoleTuple} :
    runRoles st (ts.flatMap fun t => [.delete t, .write { t with object := target }]) =
      (ts.foldlM (moveTuple target) st.tuples).map fun T => { st with tuples := T } := by
  induction ts generalizing st with
  | nil => rfl
  | cons t ts ih =>
    rw [List.flatMap_cons, runRoles_append, List.foldlM_cons, runRoles_cons, RoleCall.onRoles, moveTuple]
    cases deleteTuple st.tuples t with
    | error e => rfl
    | ok T =>
      show (runRoles { st with tuples := T } [.write { t with object := target }] >>= _) = _
      rw [runRoles_cons, RoleCall.onRoles]
      show ((writeTuple T { t with object := target }).map _ >>= _) >>= _ =
        Except.map _ (writeTuple T { t with object := target } >>= _)
      cases writeTuple T { t with object := target } with
      | error e => rfl
      | ok T' => exact ih

theorem runRoles_setTypeNamespace {types : List TypeRow} {ns : String} :
    runRoles st (types.map fun t => .setTypeNamespace t.name ns) = .ok st := by
  induction types with
  | nil => rfl
  | cons t ts ih =>
    rw [List.map_cons, runRoles_cons]
    exact ih

/-- A new store without a group, moved to one. -/
theorem setStoreGroup_new {s g : String} (h : st.hasStore s = false) :
    Roles.setStoreGroup { st with stores := st.stores ++ [(s, "")] } s g =
      { st with stores := st.stores ++ [(s, g)] } := by
  have hmap : (st.stores.map fun e => if e.1 = s then (s, g) else e) = st.stores := by
    rw [List.map_congr_left (g := id), List.map_id]
    intro e he
    refine if_neg fun hes => ?_
    simp only [Roles.hasStore, List.any_eq_false, decide_eq_true_eq] at h
    exact h e he hes
  simp [Roles.setStoreGroup, hmap]

theorem runRoles_write_one {t : RoleTuple} : runRoles st [.write t] = st.write [t] := by
  show runRoles st ([t].map .write) = _
  exact runRoles_write

/-- The deletions of a handler that keeps an owner. -/
theorem runRoles_ensureOwner {ts : List RoleTuple} {role : Rel} {object : Obj} :
    runRoles st (ts.map .delete ++ [RoleCall.ensureOwner role object]) = .ok st' ↔
      ∃ st₁, st.delete ts = .ok st₁ ∧ ensureOwner st₁ role object = .ok () ∧ st₁ = st' := by
  rw [runRoles_append, bind_eq_ok, runRoles_delete]
  refine exists_congr fun st₁ => and_congr_right fun _ => ?_
  rw [runRoles_cons, RoleCall.onRoles]
  cases ensureOwner st₁ role object with
  | error e => exact iff_of_false nofun nofun
  | ok u => exact ⟨fun h => ⟨rfl, Except.ok.inj h⟩, fun h => congrArg _ h.2⟩

/-- The calls of a rename: the moves, and with them the links. -/
theorem runRoles_rename {w : World} {p : Principal} {s ns renamed : String} :
    runRoles w.roles (roleCalls cfg w (.namespaceRename p s ns renamed)) =
      ((tuplesOf w.roles (nsObject s ns)).foldlM (moveTuple (nsObject s renamed)) w.roles.tuples >>= fun T =>
        if tuplesOf w.roles (nsObject s ns) = [] then .ok { w.roles with tuples := T } else do
          let T ← deleteTuple T (.link ⟨.store, s⟩ .store (nsObject s ns))
          Roles.write { w.roles with tuples := T } (namespaceLinks s renamed)) := by
  rw [roleCalls, runRoles_append, runRoles_append, runRoles_setTypeNamespace]
  show (runRoles w.roles _ >>= _) = _
  rw [runRoles_move]
  cases (tuplesOf w.roles (nsObject s ns)).foldlM (moveTuple (nsObject s renamed)) w.roles.tuples with
  | error e => rfl
  | ok T =>
    show runRoles { w.roles with tuples := T } _ = _
    by_cases hnone : tuplesOf w.roles (nsObject s ns) = []
    · rw [if_pos hnone]
      simp only [hnone, if_true]
      rfl
    · rw [if_neg hnone, runRoles_cons, RoleCall.onRoles]
      show ((deleteTuple T _).map _ >>= _) = ite _ _ _
      rw [if_neg hnone]
      cases deleteTuple T (.link ⟨.store, s⟩ .store (nsObject s ns)) with
      | error e => rfl
      | ok T' => exact runRoles_write


theorem runRoles_createStore {s g : String} (hnew : st.hasStore s = false) :
    runRoles st (.createStore s :: if g = "" then [] else [.setStoreGroup s g]) =
      .ok { st with stores := st.stores ++ [(s, g)] } := by
  rw [runRoles_cons, RoleCall.onRoles]
  by_cases hg : g = ""
  · rw [if_pos hg, hg]
    rfl
  · rw [if_neg hg]
    show Except.ok (Roles.setStoreGroup _ s g) = _
    rw [setStoreGroup_new hnew]

/-- **The handler of a change of roles asks its guards and makes its calls.** -/
theorem handle_eq_ok_iff {w : World} {c : RoleChange} :
    handle cfg w.roles c = .ok st' ↔ (c.valid cfg = true ∧ c.gate cfg w.roles = true ∧
      c.allowed w.roles = true) ∧ runRoles w.roles (roleCalls cfg w c) = .ok st' := by
  cases c with
  | accessAdd p s req =>
    rw [roleCalls, runRoles_write_one]
    simp only [handle, handleAccessAdd, bind_eq_ok, requireStore_eq_ok, exists_const,
      RoleChange.valid, RoleChange.gate, RoleChange.allowed, Bool.and_eq_true, isOk_iff]
    tauto
  | accessRemove p s items =>
    rw [roleCalls, runRoles_ensureOwner]
    simp only [handle, handleAccessRemove, bind_eq_ok, requireStore_eq_ok, exists_const,
      RoleChange.valid, RoleChange.gate, RoleChange.allowed, Bool.and_eq_true, isOk_iff, pure, Except.pure,
      Except.ok.injEq]
    tauto
  | namespaceAccessAdd p s ns req =>
    rw [roleCalls, runRoles_write]
    simp only [handle, handleNamespaceAccessAdd, bind_eq_ok, namespaceTarget_eq_ok, exists_const,
      RoleChange.valid, RoleChange.gate, RoleChange.allowed, Bool.and_eq_true, isOk_iff]
    tauto
  | namespaceAccessRemove p s ns items =>
    rw [roleCalls, runRoles_delete]
    simp only [handle, handleNamespaceAccessRemove, bind_eq_ok, namespaceTarget_eq_ok, exists_const,
      RoleChange.valid, RoleChange.gate, RoleChange.allowed, Bool.and_eq_true, isOk_iff]
    tauto
  | namespaceRename p s ns renamed =>
    rw [runRoles_rename]
    simp only [handle, handleNamespaceRename, bind_eq_ok, requireStore_eq_ok, require_eq_ok, guardOr_eq_ok,
      exists_const, RoleChange.valid, RoleChange.gate, RoleChange.allowed, Bool.and_eq_true, decide_eq_true_eq]
    tauto
  | groupAccessAdd p g req =>
    rw [roleCalls, runRoles_write_one]
    simp only [handle, handleGroupAccessAdd, bind_eq_ok, require_eq_ok, exists_const,
      RoleChange.valid, RoleChange.gate, RoleChange.allowed, isOk_iff]
    tauto
  | groupAccessRemove p g items =>
    rw [roleCalls, runRoles_delete]
    simp only [handle, handleGroupAccessRemove, bind_eq_ok, require_eq_ok, exists_const,
      RoleChange.valid, RoleChange.gate, RoleChange.allowed, isOk_iff]
    tauto
  | platformAccessAdd p req =>
    rw [roleCalls, runRoles_write_one]
    simp only [handle, handlePlatformAccessAdd, bind_eq_ok, require_eq_ok, exists_const,
      RoleChange.valid, RoleChange.gate, RoleChange.allowed, isOk_iff]
    tauto
  | platformAccessRemove p items =>
    rw [roleCalls, runRoles_ensureOwner]
    simp only [handle, handlePlatformAccessRemove, bind_eq_ok, require_eq_ok, exists_const,
      RoleChange.valid, RoleChange.gate, RoleChange.allowed, isOk_iff, pure, Except.pure,
      Except.ok.injEq]
    tauto
  | groupCreate p g =>
    have hrun : runRoles w.roles (roleCalls cfg w (.groupCreate p g)) =
      Roles.write { w.roles with groups := w.roles.groups ++ [g] }
        [.link cfg.platform .platform ⟨.group, g⟩] := runRoles_write_one
    simp only [handle, handleGroupCreate, bind_eq_ok, require_eq_ok, guardOr_eq_ok, exists_const, hrun,
      RoleChange.valid, RoleChange.gate, RoleChange.allowed, Bool.and_eq_true, decide_eq_true_eq]
    tauto
  | groupDelete p g =>
    have hrun : runRoles w.roles (roleCalls cfg w (.groupDelete p g)) =
      Roles.delete { w.roles with groups := w.roles.groups.filter (· ≠ g) } _ := runRoles_delete
    simp only [handle, handleGroupDelete, bind_eq_ok, require_eq_ok, guardOr_eq_ok, exists_const, hrun,
      RoleChange.valid, RoleChange.gate, RoleChange.allowed, decide_eq_true_eq]
    tauto
  | storeGroupSet p s g =>
    simp only [handle, handleStoreGroupSet, bind_eq_ok, require_eq_ok, guardOr_eq_ok, exists_const,
      RoleChange.valid, RoleChange.gate, RoleChange.allowed, Bool.and_eq_true, Bool.or_eq_true, decide_eq_true_eq]
    cases hold : w.roles.stores.lookup s with
    | none => simp
    | some old =>
      have hrun : runRoles w.roles (roleCalls cfg w (.storeGroupSet p s g)) =
          if old = g then .ok w.roles else
            (w.roles.setStoreGroup s g).delete (groupLink s old) >>= fun st' => st'.write (groupLink s g) := by
        simp only [roleCalls, hold, Option.getD_some]
        split
        · rfl
        · rw [List.cons_append, runRoles_cons, RoleCall.onRoles]
          show runRoles (w.roles.setStoreGroup s g) _ = _
          simp only [runRoles_append, runRoles_delete, runRoles_write]
      rw [hrun]
      simp only [bind_eq_ok, guardOr_eq_ok, exists_const, Option.isSome_some, decide_eq_true_eq]
      have hguards : ∀ {manages named known run : Prop}, manages ∧ named ∧ known ∧ run ↔
          (named ∧ manages ∧ True ∧ known) ∧ run :=
        fun {_ _ _ _} => by rw [true_and, ← and_left_comm, and_assoc, and_assoc]
      by_cases hsame : old = g
      · simp only [if_pos hsame]
        exact hguards
      · simp only [if_neg hsame]
        exact hguards
  | createStore p s g =>
    simp only [handle, handleCreateStore, bind_eq_ok, require_eq_ok, guardOr_eq_ok, exists_const,
      RoleChange.valid, RoleChange.gate, RoleChange.allowed, Bool.and_eq_true, Bool.or_eq_true, decide_eq_true_eq]
    by_cases hnew : w.roles.hasStore s = true
    · simp [hnew]
    · have hrun : runRoles w.roles (roleCalls cfg w (.createStore p s g)) =
          Roles.write { w.roles with stores := w.roles.stores ++ [(s, g)] }
            (groupLink s g ++ claimTuples cfg p s) := by
        rw [roleCalls, runRoles_append, runRoles_createStore (by simpa using hnew)]
        exact runRoles_write
      rw [hrun]
      constructor
      · rintro ⟨hcreates, hname, hgroupName, hreserved, hnew, hgroup, h⟩
        exact ⟨⟨⟨⟨hname, hgroupName⟩, hreserved⟩, hcreates, hnew, hgroup⟩, h⟩
      · rintro ⟨⟨⟨⟨hname, hgroupName⟩, hreserved⟩, hcreates, hnew, hgroup⟩, h⟩
        exact ⟨hcreates, hname, hgroupName, hreserved, hnew, hgroup, h⟩
  | adoptStore p s =>
    rw [roleCalls, runRoles_write]
    simp only [handle, handleAdoptStore, bind_eq_ok, require_eq_ok, guardOr_eq_ok, exists_const,
      RoleChange.valid, RoleChange.gate, RoleChange.allowed, Bool.and_eq_true]
    tauto
  | deleteStore p s req =>
    have hrun : runRoles w.roles (roleCalls cfg w (.deleteStore p s req)) =
        Roles.delete { w.roles with stores := w.roles.stores.filter (·.1 ≠ s) }
          (tuplesOf w.roles ⟨.store, s⟩) := runRoles_delete
    simp only [handle, handleDeleteStore, requireLifecycle, deleteStoreReceipt, bind_eq_ok, guardOr_eq_ok,
      exists_const, hrun, RoleChange.valid, RoleChange.gate, RoleChange.allowed, Bool.and_eq_true,
      Bool.or_eq_true, Bool.not_eq_true', decide_eq_true_eq, pure, Except.pure, Except.ok.injEq,
      imp_iff_not_or, Bool.not_eq_true]
    constructor
    · rintro ⟨⟨hname, hgate, hconfirm, hown⟩, hpurge, st₁, ⟨hstore, rfl⟩, h⟩
      exact ⟨⟨⟨⟨⟨hname, hconfirm⟩, hown⟩, hpurge⟩, hgate, hstore⟩, h⟩
    · rintro ⟨⟨⟨⟨⟨hname, hconfirm⟩, hown⟩, hpurge⟩, hgate, hstore⟩, h⟩
      exact ⟨⟨hname, hgate, hconfirm, hown⟩, hpurge, _, ⟨hstore, rfl⟩, h⟩

end Handlers

/-- The roles after the transaction of a change of roles. -/
theorem roles_of_transact {cfg : Config} {env : Engine} {w w' : World} {log : List (Signed Entry)}
    {c : RoleChange} (h : transact cfg env w (.roles c) = .ok (w', log)) :
    handle cfg w.roles c = .ok w'.roles := by
  obtain ⟨calls, hcalls, hrun⟩ := bind_eq_ok.mp h
  obtain ⟨st', hst, hcalls⟩ := bind_eq_ok.mp hcalls
  obtain rfl := Except.ok.inj hcalls
  have hst := mapError_eq_ok.mp hst
  rw [hst, ← (handle_eq_ok_iff.mp hst).2, runRoles_of_runAll hrun]

/-- A call on the store of the request. -/
theorem onStore_run {w w' : World} {entries : List Entry} {sets : Option String}
    {f : ManagedStore → Except EngineError (ManagedStore × List Entry)}
    (h : (onStore sets f).run w = .ok (w', entries)) : f w.store = .ok (w'.store, entries) := by
  simp only [onStore, map_eq_ok, mapError_eq_ok] at h
  obtain ⟨r, hr, h⟩ := h
  obtain ⟨rfl, rfl⟩ := Prod.mk.inj h
  exact hr

/-- What a statement on a tuple does, and what it records. -/
theorem TupleChange.run_eq_ok {env : Engine} {w w' : World} {entries : List Entry} {performedBy : String}
    {c : TupleChange} (h : (c.call env performedBy).run w = .ok (w', entries)) :
    c.apply env.toChecks w.store = .ok w'.store ∧ entries = c.entries env w.store := by
  rw [TupleChange.call] at h
  obtain ⟨st, hst, h⟩ := map_eq_ok.mp (onStore_run h)
  obtain ⟨rfl, rfl⟩ := Prod.mk.inj h
  exact ⟨hst, rfl⟩

/-- What an operation of the editor does, and what it records. -/
theorem ModelEdit.run_eq_ok {env : Engine} {w w' : World} {entries : List Entry} {e : ModelEdit}
    (h : (e.call env).run w = .ok (w', entries)) :
    e.apply env.toChecks w.store = .ok w'.store ∧ entries = e.entries env w.store := by
  rw [ModelEdit.call] at h
  obtain ⟨st, hst, h⟩ := map_eq_ok.mp (onStore_run h)
  obtain ⟨rfl, rfl⟩ := Prod.mk.inj h
  exact ⟨hst, rfl⟩

theorem StoreChange.apply_of_run {env : Engine} {w w' : World} {entries : List Entry}
    {performedBy : String} {c : StoreChange} (h : (c.call env performedBy).run w = .ok (w', entries)) :
    c.apply env.toChecks w.store = .ok w'.store := by
  cases c with
  | edit e => exact (ModelEdit.run_eq_ok h).1
  | tuple c => exact (TupleChange.run_eq_ok h).1

/-- The store after the transaction of a request on it. -/
theorem store_of_transact {cfg : Config} {env : Engine} {w w' : World} {log : List (Signed Entry)}
    {p : Principal} {s : String} {req : StoreRequest}
    (h : transact cfg env w (.store p s req) = .ok (w', log)) :
    handleStoreRequest cfg w.roles.tuples.rows p s env.toChecks w.store req = .ok w'.store := by
  obtain ⟨calls, hcalls, hrun⟩ := bind_eq_ok.mp h
  obtain ⟨st', hst, hcalls⟩ := bind_eq_ok.mp hcalls
  obtain rfl := Except.ok.inj hcalls
  have hchanges : ∀ (setting : String) (cs : List StoreChange) (v v' : World) (log : List (Signed Entry)),
      runAll env.effectiveRole setting v (cs.map (·.call env (req.performedBy p))) = .ok (v', log) →
        runChanges env.toChecks v.store cs = .ok v'.store := by
    intro setting cs
    induction cs generalizing setting with
    | nil =>
      intro v v' log hrun
      obtain ⟨rfl, -⟩ := Prod.mk.inj (Except.ok.inj hrun)
      rfl
    | cons c cs ih =>
      intro v v' log hrun
      obtain ⟨v₁, _, _, hc, hcs, -⟩ := runAll_cons.mp hrun
      rw [runChanges, List.foldlM_cons, StoreChange.apply_of_run hc]
      exact ih _ _ _ _ hcs
  rw [hst]
  simp only [handleStoreRequest, bind_eq_ok, mapError_eq_ok] at hst
  obtain ⟨_, -, _, -, _, -, _, -, _, -, hst⟩ := hst
  rw [hchanges _ _ _ _ _ hrun] at hst
  rw [Except.ok.inj hst]

end PgAuthz.Console
