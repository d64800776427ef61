import Mathlib.Data.List.Find
import PgAuthz.Store.Schema
import PgAuthz.Transition.Runs

/-!
# The partitions of the tuples

The tuples of all stores are rows of one table, which is partitioned by the object type. A type gets
its partition when it is registered. The name of the partition is made of the names of the store and
of the type, and a removal drops the partition that has this name.

Two types can have the same name of a partition. Then the second one is registered without a
partition of its own, its tuples are rows of the default partition, and its removal drops the
partition of the first one. While the names of the registered types are distinct, a removal drops
only what is its own.

## Main definitions

* `partitionName`: the name of the partition of a type
* `Database`: stores, types and partitions
* `CatalogOp`, `Database.step`: the operations
* `Removal.Concerns`: a tuple of the removed store or type
* `DistinctNames`: a registration gives a name that no other type and no partition has

## Main results

* `Consistent.step`: what the catalog and the partitions keep
* `removal_touches_only_own_tuples`: a removal along a run with distinct names
-/

namespace PgAuthz

open Transition (run Along)

/-! ## Names -/

/-- The pattern `[^a-zA-Z0-9]` replaced by `_`. -/
def sanitize (name : String) : String := name.map fun c => if c.isAlphanum then c else '_'

/-- The name that the partition of a type is created and looked up under. -/
def partitionName (store typeName : String) : String :=
  "tuples_" ++ sanitize store ++ "_" ++ sanitize typeName

/-- An identifier of the server has at most 63 bytes; sanitised names are ASCII. -/
def identifier (name : String) : String := String.ofList (name.toList.take 63)

/-- The names that are reserved in the policy language. -/
def regoReserved : List String :=
  ["as", "contains", "default", "else", "every", "false", "if", "import", "in", "not", "null",
    "package", "some", "true", "with", "input", "data"]

/-- The store names that `create_store` accepts. -/
def validStoreName (name : String) : Bool :=
  (match name.toList with
    | [] => false
    | c :: cs => (c.isAlpha || c == '_') && cs.all fun c => c.isAlphanum || c == '_') &&
    decide (name.length ≤ 63) && !(regoReserved.contains name)

/-! ## The tables -/

/-- A row of `authz.stores`. -/
structure StoreRow where
  id : ℕ
  name : String
  retired : Bool
deriving DecidableEq, Repr

/-- A row of `authz.types`. -/
structure TypeRow where
  id : ℕ
  storeId : ℕ
  name : String
deriving DecidableEq, Repr

/-- A tuple with its store. -/
structure StoredTuple where
  storeId : ℕ
  tuple : Tuple
deriving DecidableEq, Repr

/-- Two rows with the same columns of the unique key. -/
def StoredTuple.sameKey (r r' : StoredTuple) : Bool :=
  r.storeId = r'.storeId ∧ r.tuple.userType = r'.tuple.userType ∧
    r.tuple.userId = r'.tuple.userId ∧ r.tuple.userRelation = r'.tuple.userRelation ∧
    r.tuple.relation = r'.tuple.relation ∧ r.tuple.objectType = r'.tuple.objectType ∧
    r.tuple.objectId = r'.tuple.objectId

/-- The partition of the tuples of a type, with the names of its hash partitions. -/
structure Partition where
  name : String
  typeId : ℕ
  subs : List String
  rows : List StoredTuple
deriving DecidableEq, Repr

/-- The catalog and the tuples. The default partition holds the tuples of the types without a
partition, and `others` are the relations of the schema besides the tuples, with whether they are
partitions. -/
structure Database where
  nextStore : ℕ
  nextType : ℕ
  stores : List StoreRow
  types : List TypeRow
  partitions : List Partition
  tuplesDefault : List StoredTuple
  others : List (String × Bool)
deriving DecidableEq, Repr

/-- A database without stores. -/
def Database.init (others : List (String × Bool)) : Database := ⟨1, 1, [], [], [], [], others⟩

namespace Database

/-- All tuples. -/
def stored (db : Database) : List StoredTuple :=
  db.tuplesDefault ++ db.partitions.flatMap (·.rows)

/-- The partition that the tuples of a type are written to, unless it is the default one. -/
def partitionOf (db : Database) (typeId : ℕ) : Option String :=
  (db.partitions.find? fun p => p.typeId = typeId).map (·.name)

/-- The names of all relations of the schema. -/
def relationNames (db : Database) : List String :=
  "tuples_default" :: (db.partitions.flatMap fun p => p.name :: p.subs) ++ db.others.map Prod.fst

/-- `relispartition` of the relation with this name. -/
def isPartition (db : Database) (name : String) : Bool :=
  name == "tuples_default" || db.partitions.any (fun p => p.name == name || p.subs.contains name) ||
    db.others.contains (name, true)

/-- `_s`: a store by its name; a retired one is found only with `withRetired`. -/
def findStore (db : Database) (name : String) (withRetired : Bool) : Option StoreRow :=
  db.stores.find? fun σ => σ.name = name ∧ (withRetired ∨ !σ.retired)

/-- `_t`: a type of a store by its name. -/
def findType (db : Database) (storeId : ℕ) (name : String) : Option TypeRow :=
  db.types.find? fun τ => τ.storeId = storeId ∧ τ.name = name

/-! ## The operations -/

/-- `create_store`. -/
def createStore (db : Database) (name : String) : Option Database :=
  if validStoreName name ∧ ∀ σ ∈ db.stores, σ.name ≠ name then
    some { db with
      nextStore := db.nextStore + 1
      stores := db.stores ++ [⟨db.nextStore, name, false⟩] }
  else none

/-- `_ensure_tuple_partition`: nothing happens if a partition has the name already. A relation with
the name of the partition or of one of its hash partitions, and a row of the type in the default
partition, are errors. -/
def ensureTuplePartition (db : Database) (store typeName : String) (typeId hashModulus : ℕ) :
    Option Database :=
  let name := partitionName store typeName
  if db.isPartition name then some db
  else
    let subs := (List.range hashModulus).map fun i => identifier (name ++ "_" ++ toString i)
    if (identifier name :: subs).Nodup ∧ (∀ n ∈ identifier name :: subs, n ∉ db.relationNames) ∧
        ∀ r ∈ db.tuplesDefault, r.tuple.objectType ≠ typeId then
      some { db with partitions := db.partitions ++ [⟨identifier name, typeId, subs, []⟩] }
    else none

/-- `model_register_type`; the types of an ephemeral store get no partition. -/
def registerType (db : Database) (store typeName : String) (hashModulus : ℕ) (ephemeral : Bool) :
    Option Database := do
  let σ ← db.findStore store false
  if ∀ τ ∈ db.types, ¬ (τ.storeId = σ.id ∧ τ.name = typeName) then
    let db' := { db with
      nextType := db.nextType + 1
      types := db.types ++ [⟨db.nextType, σ.id, typeName⟩] }
    if ephemeral then some db' else db'.ensureTuplePartition store typeName db.nextType hashModulus
  else none

/-- The rows of a partition with a row inserted, or updated if its key is there. -/
def upsertRow (r : StoredTuple) (rows : List StoredTuple) : List StoredTuple :=
  (rows.filter fun r' => !r.sameKey r') ++ [r]

/-- A row goes to the partition of its object type, or else to the default partition. -/
def putRow (db : Database) (r : StoredTuple) : Database :=
  if db.partitions.any fun p => p.typeId = r.tuple.objectType then
    { db with partitions := db.partitions.map fun p =>
        if p.typeId = r.tuple.objectType then { p with rows := upsertRow r p.rows } else p }
  else { db with tuplesDefault := upsertRow r db.tuplesDefault }

/-- Only the rows with a property are kept. -/
def filterRows (db : Database) (keep : StoredTuple → Bool) : Database :=
  { db with
    tuplesDefault := db.tuplesDefault.filter keep
    partitions := db.partitions.map fun p => { p with rows := p.rows.filter keep } }

/-- The row that a write or a deletion names, with its types resolved in the store. -/
def resolveRow (db : Database) (store userType objectType : String) (t : Tuple) :
    Option StoredTuple := do
  let σ ← db.findStore store false
  let ut ← db.findType σ.id userType
  let ot ← db.findType σ.id objectType
  return ⟨σ.id, { t with userType := ut.id, objectType := ot.id }⟩

/-- `DETACH PARTITION` and `DROP TABLE` of the partition with this name, if there is one. Only a
partition of the tuples can be detached from them. -/
def dropPartition (db : Database) (name : String) : Option Database :=
  if db.isPartition name then
    if db.partitions.any fun p => p.name = name then
      some { db with partitions := db.partitions.filter fun p => p.name ≠ name }
    else none
  else some db

/-- `_drop_store_tuple_partitions`. -/
def dropStoreTuplePartitions (db : Database) (σ : StoreRow) : Option Database :=
  (db.types.filter fun τ => τ.storeId = σ.id).foldlM
    (fun d τ => d.dropPartition (partitionName σ.name τ.name)) db

/-- `retire_store`. -/
def retireStore (db : Database) (store : String) : Option Database := do
  let σ ← db.findStore store false
  let db' ← db.dropStoreTuplePartitions σ
  return { db' with
    stores := db'.stores.map fun σ' => if σ'.id = σ.id then { σ' with retired := true } else σ' }

/-- `delete_store`. -/
def deleteStore (db : Database) (store : String) : Option Database := do
  let σ ← db.findStore store true
  let db' ← (db.filterRows fun r => r.storeId ≠ σ.id).dropStoreTuplePartitions σ
  return { db' with
    types := db'.types.filter fun τ => τ.storeId ≠ σ.id
    stores := db'.stores.filter fun σ' => σ'.id ≠ σ.id }

/-- `model_remove_type`, for a type that is or is not referenced by a gate or an event. -/
def removeType (db : Database) (store typeName : String) (force referenced : Bool) :
    Option Database := do
  let σ ← db.findStore store false
  let τ ← db.findType σ.id typeName
  let named (r : StoredTuple) : Bool :=
    r.storeId = σ.id ∧ (r.tuple.objectType = τ.id ∨ r.tuple.userType = τ.id)
  if referenced ∨ (db.stored.any named ∧ !force) then none
  else
    let db' ← (db.filterRows fun r => !named r).dropPartition (partitionName store typeName)
    return { db' with types := db'.types.filter fun τ' => τ'.id ≠ τ.id }

end Database

/-- The removals. -/
inductive Removal
  | retireStore (store : String)
  | deleteStore (store : String)
  | removeType (store typeName : String) (force referenced : Bool)
deriving DecidableEq, Repr

/-- The effect of a removal. -/
def Database.remove (db : Database) : Removal → Option Database
  | .retireStore store => db.retireStore store
  | .deleteStore store => db.deleteStore store
  | .removeType store typeName force referenced => db.removeType store typeName force referenced

/-- The operations on stores, types and tuples. -/
inductive CatalogOp
  | createStore (name : String)
  | registerType (store typeName : String) (hashModulus : ℕ) (ephemeral : Bool)
  | write (store userType objectType : String) (t : Tuple)
  | delete (store userType objectType : String) (t : Tuple)
  | remove (removal : Removal)
deriving DecidableEq, Repr

/-- One operation; an operation that raises does not happen. -/
def Database.step (db : Database) : CatalogOp → Option Database
  | .createStore name => db.createStore name
  | .registerType store typeName hashModulus ephemeral =>
    db.registerType store typeName hashModulus ephemeral
  | .write store userType objectType t => (db.resolveRow store userType objectType t).map db.putRow
  | .delete store userType objectType t =>
    (db.resolveRow store userType objectType t).map fun r => db.filterRows fun r' => !r.sameKey r'
  | .remove removal => db.remove removal

/-! ## What the operations keep -/

/-- The names of the registered types tell the partitions apart, and the rows of a partition are
tuples of its type. -/
structure Consistent (db : Database) : Prop where
  store_lt : ∀ σ ∈ db.stores, σ.id < db.nextStore
  store_inj : ∀ σ ∈ db.stores, ∀ σ' ∈ db.stores, σ.id = σ'.id → σ.name = σ'.name
  type_lt : ∀ τ ∈ db.types, τ.id < db.nextType
  type_store : ∀ τ ∈ db.types, τ.storeId < db.nextStore
  type_inj : ∀ τ ∈ db.types, ∀ τ' ∈ db.types, τ.id = τ'.id → τ = τ'
  partition_lt : ∀ p ∈ db.partitions, p.typeId < db.nextType
  rows_typed : ∀ p ∈ db.partitions, ∀ r ∈ p.rows, r.tuple.objectType = p.typeId
  rows_lt : ∀ r ∈ db.stored, r.tuple.objectType < db.nextType
  rows_store : ∀ r ∈ db.stored, ∀ τ ∈ db.types, τ.id = r.tuple.objectType → r.storeId = τ.storeId
  named : ∀ p ∈ db.partitions, ∀ τ ∈ db.types, ∀ σ ∈ db.stores, σ.id = τ.storeId →
    p.name = partitionName σ.name τ.name → p.typeId = τ.id

theorem Consistent.init (others : List (String × Bool)) : Consistent (Database.init others) := by
  constructor <;> simp [Database.init, Database.stored]

theorem mem_stored {db : Database} {r : StoredTuple} :
    r ∈ db.stored ↔ r ∈ db.tuplesDefault ∨ ∃ p ∈ db.partitions, r ∈ p.rows := by
  simp [Database.stored]

/-- The second database has only what the first one has, besides tuples that are `own` and the
partitions of types that are `ownType`. -/
structure RemovesOnly (own : StoredTuple → Prop) (ownType : ℕ → Prop) (db db' : Database) :
    Prop where
  nextStore : db'.nextStore = db.nextStore
  nextType : db'.nextType = db.nextType
  stores : ∀ σ' ∈ db'.stores, ∃ σ ∈ db.stores, σ.id = σ'.id ∧ σ.name = σ'.name
  types : db'.types ⊆ db.types
  partitions : ∀ p' ∈ db'.partitions, ∃ p ∈ db.partitions,
    p.name = p'.name ∧ p.typeId = p'.typeId ∧ p'.rows ⊆ p.rows
  stored : db'.stored ⊆ db.stored
  kept : ∀ r ∈ db.stored, ¬ own r → r ∈ db'.stored
  partitionOf : ∀ T, ¬ ownType T → db'.partitionOf T = db.partitionOf T

section RemovesOnly

variable {own own' : StoredTuple → Prop} {ownType ownType' : ℕ → Prop} {db db' db'' : Database}

theorem RemovesOnly.refl (db : Database) : RemovesOnly own ownType db db :=
  ⟨rfl, rfl, fun σ hσ => ⟨σ, hσ, rfl, rfl⟩, List.Subset.refl _,
    fun p hp => ⟨p, hp, rfl, rfl, List.Subset.refl _⟩, List.Subset.refl _, fun _ hr _ => hr,
    fun _ _ => rfl⟩

theorem RemovesOnly.trans (h : RemovesOnly own ownType db db')
    (h' : RemovesOnly own ownType db' db'') : RemovesOnly own ownType db db'' where
  nextStore := h'.nextStore.trans h.nextStore
  nextType := h'.nextType.trans h.nextType
  stores σ hσ := by
    obtain ⟨σ', hσ', hid', hname'⟩ := h'.stores σ hσ
    obtain ⟨σ'', hσ'', hid, hname⟩ := h.stores σ' hσ'
    exact ⟨σ'', hσ'', hid.trans hid', hname.trans hname'⟩
  types := List.Subset.trans h'.types h.types
  partitions p hp := by
    obtain ⟨p', hp', hname', htype', hrows'⟩ := h'.partitions p hp
    obtain ⟨p'', hp'', hname, htype, hrows⟩ := h.partitions p' hp'
    exact ⟨p'', hp'', hname.trans hname', htype.trans htype', List.Subset.trans hrows' hrows⟩
  stored := List.Subset.trans h'.stored h.stored
  kept r hr hown := h'.kept r (h.kept r hr hown) hown
  partitionOf T hT := (h'.partitionOf T hT).trans (h.partitionOf T hT)

theorem RemovesOnly.mono (h : RemovesOnly own ownType db db') (hown : ∀ r, own r → own' r)
    (htype : ∀ T, ownType T → ownType' T) : RemovesOnly own' ownType' db db' :=
  { h with
    kept := fun r hr hn => h.kept r hr (mt (hown r) hn)
    partitionOf := fun T hn => h.partitionOf T (mt (htype T) hn) }

/-- What is removed cannot make the rest inconsistent. -/
theorem Consistent.removesOnly (hc : Consistent db) (h : RemovesOnly own ownType db db') :
    Consistent db' where
  store_lt σ' hσ' := by
    obtain ⟨σ, hσ, hid, -⟩ := h.stores σ' hσ'
    rw [← hid, h.nextStore]
    exact hc.store_lt σ hσ
  store_inj σ' hσ' σ'' hσ'' hid := by
    obtain ⟨σ₁, hσ₁, hid₁, hname₁⟩ := h.stores σ' hσ'
    obtain ⟨σ₂, hσ₂, hid₂, hname₂⟩ := h.stores σ'' hσ''
    rw [← hname₁, ← hname₂]
    exact hc.store_inj σ₁ hσ₁ σ₂ hσ₂ (by omega)
  type_lt τ hτ := h.nextType ▸ hc.type_lt τ (h.types hτ)
  type_store τ hτ := h.nextStore ▸ hc.type_store τ (h.types hτ)
  type_inj τ hτ τ' hτ' := hc.type_inj τ (h.types hτ) τ' (h.types hτ')
  partition_lt p' hp' := by
    obtain ⟨p, hp, -, htype, -⟩ := h.partitions p' hp'
    rw [← htype, h.nextType]
    exact hc.partition_lt p hp
  rows_typed p' hp' r hr := by
    obtain ⟨p, hp, -, htype, hrows⟩ := h.partitions p' hp'
    rw [← htype]
    exact hc.rows_typed p hp r (hrows hr)
  rows_lt r hr := h.nextType ▸ hc.rows_lt r (h.stored hr)
  rows_store r hr τ hτ := hc.rows_store r (h.stored hr) τ (h.types hτ)
  named p' hp' τ hτ σ' hσ' hid hname := by
    obtain ⟨p, hp, hpname, htype, -⟩ := h.partitions p' hp'
    obtain ⟨σ, hσ, hσid, hσname⟩ := h.stores σ' hσ'
    rw [← htype]
    refine hc.named p hp τ (h.types hτ) σ hσ (hσid.trans hid) ?_
    rw [hpname, hname, hσname]

theorem removesOnly_filterRows (db : Database) (keep : StoredTuple → Bool) :
    RemovesOnly (fun r => keep r = false) (fun _ => False) db (db.filterRows keep) where
  nextStore := rfl
  nextType := rfl
  stores σ hσ := ⟨σ, hσ, rfl, rfl⟩
  types := List.Subset.refl _
  partitions p' hp' := by
    obtain ⟨p, hp, rfl⟩ := List.mem_map.mp hp'
    exact ⟨p, hp, rfl, rfl, fun _ hr => List.mem_of_mem_filter hr⟩
  stored r hr := by
    rw [mem_stored] at hr ⊢
    rcases hr with hr | ⟨p', hp', hr⟩
    · exact .inl (List.mem_of_mem_filter hr)
    · obtain ⟨p, hp, rfl⟩ := List.mem_map.mp hp'
      exact .inr ⟨p, hp, List.mem_of_mem_filter hr⟩
  kept r hr hkeep := by
    have hkeep : keep r = true := by simpa using hkeep
    rw [mem_stored] at hr ⊢
    rcases hr with hr | ⟨p, hp, hr⟩
    · exact .inl (List.mem_filter.mpr ⟨hr, hkeep⟩)
    · exact .inr ⟨_, List.mem_map.mpr ⟨p, hp, rfl⟩, List.mem_filter.mpr ⟨hr, hkeep⟩⟩
  partitionOf T _ := by
    simp only [Database.partitionOf, Database.filterRows, List.find?_map, Option.map_map]
    rfl

/-- The tuples and partitions stay if only rows of the catalog are removed or marked. -/
theorem removesOnly_catalog {stores : List StoreRow} {types : List TypeRow}
    (hstores : ∀ σ' ∈ stores, ∃ σ ∈ db.stores, σ.id = σ'.id ∧ σ.name = σ'.name)
    (htypes : types ⊆ db.types) :
    RemovesOnly own ownType db { db with stores := stores, types := types } :=
  have hrefl : RemovesOnly own ownType db db := .refl db
  { hrefl with
    stores := hstores
    types := htypes }

end RemovesOnly

/-! ## The removals -/

section Removals

variable {db db' : Database} {σ : StoreRow} {τ : TypeRow}

theorem dropPartition_catalog {name : String} (h : db.dropPartition name = some db') :
    db'.stores = db.stores ∧ db'.types = db.types := by
  unfold Database.dropPartition at h
  split at h
  · split at h
    · cases h
      exact ⟨rfl, rfl⟩
    · cases h
  · cases h
    exact ⟨rfl, rfl⟩

/-- **The partition that has the name of a registered type is its own.** -/
theorem removesOnly_dropPartition (hc : Consistent db) (hσ : σ ∈ db.stores) (hτ : τ ∈ db.types)
    (hid : τ.storeId = σ.id) (h : db.dropPartition (partitionName σ.name τ.name) = some db') :
    RemovesOnly (fun r => r.storeId = σ.id ∧ r.tuple.objectType = τ.id) (· = τ.id) db db' := by
  unfold Database.dropPartition at h
  split at h
  · split at h
    · cases h
      have hown : ∀ p ∈ db.partitions, p.name = partitionName σ.name τ.name → p.typeId = τ.id :=
        fun p hp => hc.named p hp τ hτ σ hσ hid.symm
      have hrefl : RemovesOnly (fun r => r.storeId = σ.id ∧ r.tuple.objectType = τ.id) (· = τ.id)
          db db := .refl db
      exact
        { hrefl with
          partitions := fun p hp => ⟨p, List.mem_of_mem_filter hp, rfl, rfl, List.Subset.refl _⟩
          stored := by
            intro r hr
            rw [mem_stored] at hr ⊢
            exact hr.imp_right fun ⟨p, hp, hr⟩ => ⟨p, List.mem_of_mem_filter hp, hr⟩
          kept := by
            intro r hr hnot
            have hr' := hr
            rw [mem_stored] at hr ⊢
            refine hr.imp_right fun ⟨p, hp, hr⟩ => ⟨p, List.mem_filter.mpr ⟨hp, ?_⟩, hr⟩
            -- a row of the dropped partition is a tuple of the type
            rw [decide_eq_true_eq]
            intro hname
            have htype := (hc.rows_typed p hp r hr).trans (hown p hp hname)
            exact hnot ⟨(hc.rows_store r hr' τ hτ htype.symm).trans hid, htype⟩
          partitionOf := by
            intro T hT
            unfold Database.partitionOf
            rw [List.find?_filter]
            refine congrArg _ (List.find?_congr fun p hp => ?_)
            by_cases hname : p.name = partitionName σ.name τ.name
            · have hne : p.typeId ≠ T := fun h => hT (h ▸ hown p hp hname)
              simp [hne]
            · simp [hname] }
    · cases h
  · cases h
    exact .refl db

/-- The partitions of some types of a store. -/
theorem removesOnly_dropPartitions (hc : Consistent db) (hσ : σ ∈ db.stores) {τs : List TypeRow}
    (hτs : ∀ τ ∈ τs, τ ∈ db.types ∧ τ.storeId = σ.id)
    (h : τs.foldlM (fun d τ => d.dropPartition (partitionName σ.name τ.name)) db = some db') :
    RemovesOnly (fun r => r.storeId = σ.id) (fun T => ∃ τ ∈ db.types, τ.storeId = σ.id ∧ T = τ.id)
      db db' ∧ db'.stores = db.stores ∧ db'.types = db.types := by
  induction τs generalizing db with
  | nil =>
    cases h
    exact ⟨.refl _, rfl, rfl⟩
  | cons τ τs ih =>
    rw [List.foldlM_cons, Option.bind_eq_bind, Option.bind_eq_some_iff] at h
    obtain ⟨d, hd, h⟩ := h
    obtain ⟨hτ, hid⟩ := hτs τ (List.mem_cons_self ..)
    have hfirst := removesOnly_dropPartition hc hσ hτ hid hd
    obtain ⟨hstores, htypes⟩ := dropPartition_catalog hd
    -- the catalog stays, so the other types are those of the store after the first drop
    obtain ⟨hrest, hstores', htypes'⟩ := ih (hc.removesOnly hfirst) (hstores ▸ hσ)
      (fun τ' hτ' => htypes ▸ hτs τ' (List.mem_cons_of_mem _ hτ')) h
    refine ⟨?_, hstores'.trans hstores, htypes'.trans htypes⟩
    rw [htypes] at hrest
    refine (hfirst.mono (fun r hr => hr.1) fun T hT => ?_).trans hrest
    exact ⟨τ, hτ, hid, hT⟩

end Removals

/-- The store that a removal names. -/
def Removal.store (db : Database) : Removal → Option StoreRow
  | .retireStore store => db.findStore store false
  | .deleteStore store => db.findStore store true
  | .removeType store _ _ _ => db.findStore store false

/-- The removal concerns a type: it is one of the removed store, or the removed one. -/
def Removal.ConcernsType (db : Database) (rm : Removal) (T : ℕ) : Prop :=
  ∃ σ, rm.store db = some σ ∧ match rm with
    | .removeType _ typeName _ _ => ∃ τ, db.findType σ.id typeName = some τ ∧ T = τ.id
    | _ => ∃ τ ∈ db.types, τ.storeId = σ.id ∧ T = τ.id

/-- The removal concerns a tuple: it is one of the removed store, or it names the removed type on
either side. -/
def Removal.Concerns (db : Database) (rm : Removal) (r : StoredTuple) : Prop :=
  ∃ σ, rm.store db = some σ ∧ r.storeId = σ.id ∧ match rm with
    | .removeType _ typeName _ _ => ∃ τ, db.findType σ.id typeName = some τ ∧
        (r.tuple.objectType = τ.id ∨ r.tuple.userType = τ.id)
    | _ => True

theorem mem_of_findStore {db : Database} {name : String} {withRetired : Bool} {σ : StoreRow}
    (h : db.findStore name withRetired = some σ) : σ ∈ db.stores ∧ σ.name = name := by
  have hname := List.find?_some h
  simp only [decide_eq_true_eq] at hname
  exact ⟨List.mem_of_find?_eq_some h, hname.1⟩

theorem mem_of_findType {db : Database} {storeId : ℕ} {name : String} {τ : TypeRow}
    (h : db.findType storeId name = some τ) :
    τ ∈ db.types ∧ τ.storeId = storeId ∧ τ.name = name := by
  have hname := List.find?_some h
  simp only [decide_eq_true_eq] at hname
  exact ⟨List.mem_of_find?_eq_some h, hname⟩

/-- **A removal from a consistent database removes only what it concerns.** -/
theorem removesOnly_remove {db db' : Database} (hc : Consistent db) {rm : Removal}
    (h : db.remove rm = some db') :
    RemovesOnly (rm.Concerns db) (rm.ConcernsType db) db db' := by
  cases rm with
  -- the partitions of its types go, and the store stays, marked as retired
  | retireStore store =>
    simp only [Database.remove, Database.retireStore, Option.bind_eq_bind, Option.bind_eq_some_iff,
      Option.pure_def, Option.some.injEq] at h
    obtain ⟨σ, hσ, d, hd, rfl⟩ := h
    obtain ⟨hmem, -⟩ := mem_of_findStore hσ
    obtain ⟨hdrop, hstores, htypes⟩ := removesOnly_dropPartitions hc hmem
      (fun τ hτ => by simpa using List.mem_filter.mp hτ) hd
    refine (hdrop.mono (fun r hr => ⟨σ, hσ, hr, trivial⟩) fun T hT => ⟨σ, hσ, hT⟩).trans ?_
    refine removesOnly_catalog (fun σ' hσ' => ?_) (List.Subset.refl _)
    obtain ⟨σ₁, hσ₁, rfl⟩ := List.mem_map.mp hσ'
    refine ⟨σ₁, hσ₁, ?_⟩
    split <;> exact ⟨rfl, rfl⟩
  -- the rows of the store go first, then its partitions and its entries
  | deleteStore store =>
    simp only [Database.remove, Database.deleteStore, Option.bind_eq_bind, Option.bind_eq_some_iff,
      Option.pure_def, Option.some.injEq] at h
    obtain ⟨σ, hσ, d, hd, rfl⟩ := h
    obtain ⟨hmem, -⟩ := mem_of_findStore hσ
    have hrows : RemovesOnly (fun r => r.storeId = σ.id)
        (fun T => ∃ τ ∈ db.types, τ.storeId = σ.id ∧ T = τ.id) db
        (db.filterRows fun r => r.storeId ≠ σ.id) :=
      (removesOnly_filterRows db _).mono (fun r hr => by simpa using hr) fun _ => False.elim
    obtain ⟨hdrop, hstores, htypes⟩ := removesOnly_dropPartitions (hc.removesOnly hrows) hmem
      (fun τ hτ => by simpa using List.mem_filter.mp hτ) hd
    refine ((hrows.trans hdrop).mono (fun r hr => ⟨σ, hσ, hr, trivial⟩)
      fun T hT => ⟨σ, hσ, hT⟩).trans ?_
    exact removesOnly_catalog (fun σ' hσ' => ⟨σ', List.mem_of_mem_filter hσ', rfl, rfl⟩)
      fun _ hτ => List.mem_of_mem_filter hτ
  -- the rows that name the type go on either side, then its partition
  | removeType store typeName force referenced =>
    simp only [Database.remove, Database.removeType, Option.bind_eq_bind, Option.bind_eq_some_iff,
      Option.pure_def] at h
    obtain ⟨σ, hσ, τ, hτ, h⟩ := h
    split at h
    · cases h
    rw [Option.bind_eq_some_iff] at h
    obtain ⟨d, hd, h⟩ := h
    cases h
    obtain ⟨hmem, rfl⟩ := mem_of_findStore hσ
    obtain ⟨hmemτ, hid, rfl⟩ := mem_of_findType hτ
    have hrows := removesOnly_filterRows db fun r => !decide
      (r.storeId = σ.id ∧ (r.tuple.objectType = τ.id ∨ r.tuple.userType = τ.id))
    have hdrop := removesOnly_dropPartition (hc.removesOnly hrows) hmem hmemτ hid hd
    refine (RemovesOnly.trans (hrows.mono (fun r hr => ?_) fun _ => False.elim)
      (hdrop.mono (fun r hr => ?_) fun T hT => ?_)).trans ?_
    · simp only [Bool.not_eq_false', decide_eq_true_eq] at hr
      exact ⟨σ, hσ, hr.1, τ, hτ, hr.2⟩
    · exact ⟨σ, hσ, hr.1, τ, hτ, .inl hr.2⟩
    · exact ⟨σ, hσ, τ, hτ, hT⟩
    · exact removesOnly_catalog (fun σ' hσ' => ⟨σ', hσ', rfl, rfl⟩)
        fun _ hτ => List.mem_of_mem_filter hτ

/-! ## The other operations -/

/-- **A registration gives a new name**: no partition has the name of the new type's one, and no
registered type has the name that its partition gets. -/
def DistinctNames (db : Database) : CatalogOp → Prop
  | .registerType store typeName _ ephemeral =>
    (∀ p ∈ db.partitions, p.name ≠ partitionName store typeName) ∧
      (ephemeral = false → ∀ τ ∈ db.types, ∀ σ ∈ db.stores, σ.id = τ.storeId →
        partitionName σ.name τ.name ≠ identifier (partitionName store typeName))
  | _ => True

instance (db : Database) (op : CatalogOp) : Decidable (DistinctNames db op) :=
  match op with
  | .registerType _ _ _ _ => inferInstanceAs (Decidable (_ ∧ _))
  | .createStore _ | .write _ _ _ _ | .delete _ _ _ _ | .remove _ => .isTrue trivial

section Steps

variable {db db' : Database}

theorem Consistent.createStore (hc : Consistent db) {name : String}
    (h : db.createStore name = some db') : Consistent db' := by
  unfold Database.createStore at h
  split at h
  · cases h
    have hold : ∀ σ ∈ db.stores ++ [⟨db.nextStore, name, false⟩],
        σ ∈ db.stores ∨ σ = ⟨db.nextStore, name, false⟩ := by simp
    exact
      { hc with
        store_lt := by
          intro σ hσ
          show σ.id < db.nextStore + 1
          rcases hold σ hσ with hσ | rfl
          · have := hc.store_lt σ hσ
            omega
          · exact Nat.lt_succ_self _
        store_inj := by
          intro σ hσ σ' hσ' hid
          rcases hold σ hσ with hσ | rfl <;> rcases hold σ' hσ' with hσ' | rfl
          · exact hc.store_inj σ hσ σ' hσ' hid
          · exact absurd hid (hc.store_lt σ hσ).ne
          · exact absurd hid.symm (hc.store_lt σ' hσ').ne
          · rfl
        type_store := fun τ hτ => (hc.type_store τ hτ).trans (Nat.lt_succ_self _)
        named := by
          intro p hp τ hτ σ hσ hid hname
          rcases hold σ hσ with hσ | rfl
          · exact hc.named p hp τ hτ σ hσ hid hname
          · exact absurd hid.symm (hc.type_store τ hτ).ne }
  · cases h

/-- A new type, whose partition would have a name that no partition has. -/
theorem Consistent.addType (hc : Consistent db) {σ : StoreRow} (hσ : σ ∈ db.stores)
    {typeName : String} (hnew : ∀ p ∈ db.partitions, p.name ≠ partitionName σ.name typeName) :
    Consistent { db with
      nextType := db.nextType + 1
      types := db.types ++ [⟨db.nextType, σ.id, typeName⟩] } := by
  have hold : ∀ τ ∈ db.types ++ [⟨db.nextType, σ.id, typeName⟩],
      τ ∈ db.types ∨ τ = ⟨db.nextType, σ.id, typeName⟩ := by simp
  exact
    { hc with
      type_lt := by
        intro τ hτ
        show τ.id < db.nextType + 1
        rcases hold τ hτ with hτ | rfl
        · have := hc.type_lt τ hτ
          omega
        · exact Nat.lt_succ_self _
      type_store := by
        intro τ hτ
        rcases hold τ hτ with hτ | rfl
        · exact hc.type_store τ hτ
        · exact hc.store_lt σ hσ
      type_inj := by
        intro τ hτ τ' hτ' hid
        rcases hold τ hτ with hτ | rfl <;> rcases hold τ' hτ' with hτ' | rfl
        · exact hc.type_inj τ hτ τ' hτ' hid
        · exact absurd hid (hc.type_lt τ hτ).ne
        · exact absurd hid.symm (hc.type_lt τ' hτ').ne
        · rfl
      partition_lt := fun p hp => (hc.partition_lt p hp).trans (Nat.lt_succ_self _)
      rows_lt := fun r hr => (hc.rows_lt r hr).trans (Nat.lt_succ_self _)
      rows_store := by
        intro r hr τ hτ hid
        rcases hold τ hτ with hτ | rfl
        · exact hc.rows_store r hr τ hτ hid
        · exact absurd hid.symm (hc.rows_lt r hr).ne
      named := by
        intro p hp τ hτ σ' hσ' hid hname
        rcases hold τ hτ with hτ | rfl
        · exact hc.named p hp τ hτ σ' hσ' hid hname
        · rw [hc.store_inj σ' hσ' σ hσ hid] at hname
          exact absurd hname (hnew p hp) }

/-- A new partition, which no registered type but its own finds under its name. -/
theorem Consistent.addPartition (hc : Consistent db) {p : Partition} (hrows : p.rows = [])
    (hlt : p.typeId < db.nextType)
    (hnew : ∀ τ ∈ db.types, ∀ σ ∈ db.stores, σ.id = τ.storeId →
      p.name = partitionName σ.name τ.name → p.typeId = τ.id) :
    Consistent { db with partitions := db.partitions ++ [p] } := by
  have hold : ∀ p' ∈ db.partitions ++ [p], p' ∈ db.partitions ∨ p' = p := by simp
  have hstored : ∀ r ∈ Database.stored { db with partitions := db.partitions ++ [p] },
      r ∈ db.stored := by
    intro r hr
    rw [mem_stored] at hr ⊢
    rcases hr with hr | ⟨p', hp', hr⟩
    · exact .inl hr
    rcases hold p' hp' with hp' | rfl
    · exact .inr ⟨p', hp', hr⟩
    · rw [hrows] at hr
      cases hr
  exact
    { hc with
      partition_lt := by
        intro p' hp'
        rcases hold p' hp' with hp' | rfl
        · exact hc.partition_lt p' hp'
        · exact hlt
      rows_typed := by
        intro p' hp' r hr
        rcases hold p' hp' with hp' | rfl
        · exact hc.rows_typed p' hp' r hr
        · rw [hrows] at hr
          cases hr
      rows_lt := fun r hr => hc.rows_lt r (hstored r hr)
      rows_store := fun r hr => hc.rows_store r (hstored r hr)
      named := by
        intro p' hp' τ hτ σ hσ hid hname
        rcases hold p' hp' with hp' | rfl
        · exact hc.named p' hp' τ hτ σ hσ hid hname
        · exact hnew τ hτ σ hσ hid hname }

theorem Consistent.registerType (hc : Consistent db) {store typeName : String} {hashModulus : ℕ}
    {ephemeral : Bool} (hd : DistinctNames db (.registerType store typeName hashModulus ephemeral))
    (h : db.registerType store typeName hashModulus ephemeral = some db') : Consistent db' := by
  simp only [Database.registerType, Option.bind_eq_bind, Option.bind_eq_some_iff] at h
  obtain ⟨σ, hσ, h⟩ := h
  obtain ⟨hmem, rfl⟩ := mem_of_findStore hσ
  split at h
  swap
  · cases h
  have hadd := hc.addType hmem hd.1
  split at h
  · cases h
    exact hadd
  rename_i heph
  simp only [Database.ensureTuplePartition] at h
  split at h
  · cases h
    exact hadd
  split at h
  · cases h
    refine hadd.addPartition rfl (Nat.lt_succ_self _) fun τ hτ σ' hσ' hid hname => ?_
    rcases List.mem_append.mp hτ with hτ | hτ
    · exact absurd hname.symm (hd.2 (by simpa using heph) τ hτ σ' hσ' hid)
    · rw [List.mem_singleton.mp hτ]
  · cases h

/-- A row of a registered type, in the partition that it belongs to. -/
theorem Consistent.putRow (hc : Consistent db) {r : StoredTuple}
    (hr : ∃ τ ∈ db.types, τ.id = r.tuple.objectType ∧ τ.storeId = r.storeId) :
    Consistent (db.putRow r) := by
  obtain ⟨τ₀, hτ₀, hid₀, hstore₀⟩ := hr
  have hupsert : ∀ rows, ∀ r' ∈ Database.upsertRow r rows, r' ∈ rows ∨ r' = r := by
    intro rows r' hr'
    rcases List.mem_append.mp hr' with hr' | hr'
    · exact .inl (List.mem_of_mem_filter hr')
    · exact .inr (List.mem_singleton.mp hr')
  -- what holds of the old rows and of the new one holds of all rows
  have hlt : r.tuple.objectType < db.nextType := hid₀ ▸ hc.type_lt τ₀ hτ₀
  have hstore : ∀ τ ∈ db.types, τ.id = r.tuple.objectType → r.storeId = τ.storeId := by
    intro τ hτ hid
    rw [hc.type_inj τ hτ τ₀ hτ₀ (hid.trans hid₀.symm)]
    exact hstore₀.symm
  unfold Database.putRow
  split
  · have hparts : ∀ p ∈ db.partitions.map fun p => if p.typeId = r.tuple.objectType then
          { p with rows := Database.upsertRow r p.rows } else p,
        ∃ p₀ ∈ db.partitions, p.name = p₀.name ∧ p.typeId = p₀.typeId ∧
          ∀ r' ∈ p.rows, r' ∈ p₀.rows ∨ (r' = r ∧ p₀.typeId = r.tuple.objectType) := by
      intro p hp
      obtain ⟨p₀, hp₀, rfl⟩ := List.mem_map.mp hp
      refine ⟨p₀, hp₀, ?_⟩
      by_cases htype : p₀.typeId = r.tuple.objectType
      · rw [if_pos htype]
        exact ⟨rfl, rfl, fun r' hr' => (hupsert _ r' hr').imp_right fun h => ⟨h, htype⟩⟩
      · rw [if_neg htype]
        exact ⟨rfl, rfl, fun _ hr' => .inl hr'⟩
    have hstored : ∀ r' ∈ Database.stored { db with partitions := db.partitions.map fun p =>
        if p.typeId = r.tuple.objectType then { p with rows := Database.upsertRow r p.rows } else p },
        r' ∈ db.stored ∨ r' = r := by
      intro r' hr'
      rw [mem_stored] at hr'
      rcases hr' with hr' | ⟨p, hp, hr'⟩
      · exact .inl (mem_stored.mpr (.inl hr'))
      · obtain ⟨p₀, hp₀, -, -, hrows⟩ := hparts p hp
        exact (hrows r' hr').imp (fun h => mem_stored.mpr (.inr ⟨p₀, hp₀, h⟩)) And.left
    exact
      { hc with
        partition_lt := by
          intro p hp
          obtain ⟨p₀, hp₀, -, htype, -⟩ := hparts p hp
          rw [htype]
          exact hc.partition_lt p₀ hp₀
        rows_typed := by
          intro p hp r' hr'
          obtain ⟨p₀, hp₀, -, htype, hrows⟩ := hparts p hp
          rw [htype]
          rcases hrows r' hr' with h | ⟨rfl, h⟩
          · exact hc.rows_typed p₀ hp₀ r' h
          · exact h.symm
        rows_lt := fun r' hr' => (hstored r' hr').elim (hc.rows_lt r') fun h => h ▸ hlt
        rows_store := fun r' hr' => (hstored r' hr').elim (hc.rows_store r') fun h => h ▸ hstore
        named := by
          intro p hp τ hτ σ hσ hid hname
          obtain ⟨p₀, hp₀, hpname, htype, -⟩ := hparts p hp
          rw [htype]
          exact hc.named p₀ hp₀ τ hτ σ hσ hid (hpname.symm.trans hname) }
  · have hstored : ∀ r' ∈ Database.stored
        { db with tuplesDefault := Database.upsertRow r db.tuplesDefault }, r' ∈ db.stored ∨ r' = r := by
      intro r' hr'
      rw [mem_stored] at hr'
      rcases hr' with hr' | hr'
      · exact (hupsert _ r' hr').imp_left fun h => mem_stored.mpr (.inl h)
      · exact .inl (mem_stored.mpr (.inr hr'))
    exact
      { hc with
        rows_lt := fun r' hr' => (hstored r' hr').elim (hc.rows_lt r') fun h => h ▸ hlt
        rows_store := fun r' hr' => (hstored r' hr').elim (hc.rows_store r') fun h => h ▸ hstore }

theorem resolveRow_typed {store userType objectType : String} {t : Tuple} {r : StoredTuple}
    (h : db.resolveRow store userType objectType t = some r) :
    ∃ τ ∈ db.types, τ.id = r.tuple.objectType ∧ τ.storeId = r.storeId := by
  simp only [Database.resolveRow, Option.bind_eq_bind, Option.bind_eq_some_iff, Option.pure_def,
    Option.some.injEq] at h
  obtain ⟨σ, -, ut, -, ot, hot, rfl⟩ := h
  obtain ⟨hmem, hstore, -⟩ := mem_of_findType hot
  exact ⟨ot, hmem, rfl, hstore⟩

/-- **One operation.** -/
theorem Consistent.step (hc : Consistent db) {op : CatalogOp} (hd : DistinctNames db op)
    (h : db.step op = some db') : Consistent db' := by
  cases op with
  | createStore name => exact hc.createStore h
  | registerType store typeName hashModulus ephemeral => exact hc.registerType hd h
  | write store userType objectType t =>
    obtain ⟨r, hr, rfl⟩ := Option.map_eq_some_iff.mp h
    exact hc.putRow (resolveRow_typed hr)
  | delete store userType objectType t =>
    obtain ⟨r, -, rfl⟩ := Option.map_eq_some_iff.mp h
    exact hc.removesOnly (removesOnly_filterRows db _)
  | remove rm => exact hc.removesOnly (removesOnly_remove hc h)

end Steps

/-! ## Removal along a run -/

/-- **A removal touches only its own tuples**, after every run in which the registered types have
distinct names: every other tuple is stored before the removal if and only if it is stored after it,
and every other type keeps the partition that its tuples are written to. -/
theorem removal_touches_only_own_tuples {others : List (String × Bool)} {ops : List CatalogOp}
    {db db' : Database} (hd : Along Database.step DistinctNames (.init others) ops)
    (hrun : run Database.step (.init others) ops = some db) {rm : Removal}
    (h : db.remove rm = some db') :
    (∀ r, ¬ rm.Concerns db r → (r ∈ db.stored ↔ r ∈ db'.stored)) ∧
      ∀ T, ¬ rm.ConcernsType db T → db'.partitionOf T = db.partitionOf T := by
  have hc : Consistent db := hd.run (fun _ _ _ hI hok hs => hI.step hok hs) (.init others) hrun
  have honly := removesOnly_remove hc h
  refine ⟨fun r hr => ⟨fun hmem => honly.kept r hmem hr, fun hmem => honly.stored hmem⟩, ?_⟩
  exact honly.partitionOf

/-- A tuple whose types a write resolves. -/
def plainTuple : Tuple := ⟨0, "ann", none, 1, 0, "o", none, none, none⟩

/-- A store with two types, and a tuple of the second one. -/
def twoTypes : List CatalogOp :=
  [.createStore "a", .registerType "a" "b" 0 false, .registerType "a" "c" 0 false,
    .write "a" "c" "c" plainTuple]

theorem removal_touches_only_own_tuples_twoTypes :
    ∃ db db', run Database.step (.init []) twoTypes = some db ∧
      db.remove (.removeType "a" "b" false false) = some db' ∧
      (∀ r, ¬ (Removal.removeType "a" "b" false false).Concerns db r →
        (r ∈ db.stored ↔ r ∈ db'.stored)) := by
  obtain ⟨db, hdb⟩ : ∃ db, run Database.step (.init []) twoTypes = some db :=
    Option.isSome_iff_exists.mp (by decide +kernel)
  have hsome : ((run Database.step (.init []) twoTypes).bind fun db =>
      db.remove (.removeType "a" "b" false false)).isSome = true := by decide +kernel
  rw [hdb, Option.bind_some] at hsome
  obtain ⟨db', hdb'⟩ := Option.isSome_iff_exists.mp hsome
  exact ⟨db, db', hdb, hdb',
    (removal_touches_only_own_tuples (by decide +kernel) hdb hdb').1⟩

/-- The type `b_c` of the store `a` and the type `c` of the store `a_b`, and a tuple of the first
one. -/
def collidingTypes : List CatalogOp :=
  [.createStore "a", .createStore "a_b", .registerType "a" "b_c" 0 false,
    .registerType "a_b" "c" 0 false, .write "a" "b_c" "b_c" plainTuple]

/-- The deletion of the store `a_b` drops the partition of the type `b_c` of the store `a`. -/
theorem deletion_drops_partition_of_other_store :
    ¬ ∀ ops db db' rm, run Database.step (.init []) ops = some db → db.remove rm = some db' →
      ∀ r, ¬ rm.Concerns db r → (r ∈ db.stored ↔ r ∈ db'.stored) := by
  intro h
  -- what is stored before and after, and the id of the deleted store
  have hview : ((run Database.step (.init []) collidingTypes).bind fun db =>
      (db.remove (.deleteStore "a_b")).map fun db' =>
        (db.stored, (db.findStore "a_b" true).map (·.id), db'.stored)) =
      some ([⟨1, { plainTuple with userType := 1, objectType := 1 }⟩], some 2, []) := by
    decide +kernel
  obtain ⟨db, hdb, hview⟩ := Option.bind_eq_some_iff.mp hview
  obtain ⟨db', hdb', hview⟩ := Option.map_eq_some_iff.mp hview
  simp only [Prod.mk.injEq] at hview
  obtain ⟨hbefore, hstore, hafter⟩ := hview
  have hiff := h collidingTypes db db' (.deleteStore "a_b") hdb hdb'
    ⟨1, { plainTuple with userType := 1, objectType := 1 }⟩ ?_
  · rw [hbefore, hafter] at hiff
    exact absurd (hiff.mp (List.mem_singleton.mpr rfl)) (List.not_mem_nil)
  · -- the tuple is one of the store `a`
    rintro ⟨σ, hσ, hid, -⟩
    obtain ⟨σ', hσ', hid'⟩ := Option.map_eq_some_iff.mp hstore
    have heq : σ = σ' := Option.some.inj (hσ.symm.trans hσ')
    subst heq
    simp only [hid'] at hid
    cases hid

end PgAuthz
