import Mathlib
import PgAuthz.Writes.Calls

/-!
# Checked writes are serialisable

The locks of a call guard the rows that it reads for its preconditions and the rows that it writes:
the lock of the store, taken exclusively, guards all of its rows, and otherwise the lock of an object
guards the rows on it. A precondition whose keys of the object are there with a JSON null reads rows
of every object, but the call takes the lock of the store only shared and no lock of an object: its
preconditions may no longer hold when it commits.

## Main definitions

* `storedPreconditionHolds`: an `exists` or `absent` precondition in a state
* `TimedCall.preconditionsHold`, `TimedCall.apply`: those of a call, and its writes
* `checkedGuarding`: the rows that a statement touches and the locks that guard them
* `Call.NamesItsObjects`: the call locks every object that its preconditions and writes are about

## Main results

* `wellLocked_program`: such a call is well locked
* `writeTuplesChecked_serialisable`: in every run of such calls, the preconditions of a call hold in
  the state formed by the calls that committed before it
-/

namespace PgAuthz

open Locking Transition

/-! ## What is to hold of a call -/

/-- An `exists` or `absent` precondition holds; the others do not ask for stored tuples. -/
def storedPreconditionHolds (c : Catalog) (store : ℕ) (now : ℤ) (T : Rows) (pc : JsonElement) :
    Bool :=
  match pc.matchKind with
  | some .mustExist => preconditionMatches c store now T pc
  | some .mustBeAbsent => !preconditionMatches c store now T pc
  | _ => true

/-- All `exists` and `absent` preconditions of a call hold. -/
def TimedCall.preconditionsHold (env : CheckedEnv) (r : TimedCall) (T : Rows) : Bool :=
  match r.call with
  | .writeTuplesChecked store preconditions _ _ => (env.catalog.s store).any fun id =>
    (preconditions.getD []).all (storedPreconditionHolds env.catalog id r.now T)
  | _ => true

/-- The rows after the writes of a statement. -/
def CheckedStmt.apply (T : Rows) : CheckedStmt → Rows
  | write now ops => rowsTable.putAll T (changesOf now ops T)
  | _ => T

/-- The rows after the writes of a call. -/
def TimedCall.apply (env : CheckedEnv) (T : Rows) (r : TimedCall) : Rows :=
  (r.program env).foldl CheckedStmt.apply T

/-! ## Locks and rows -/

/-- What a statement does alone, with its checks of stored tuples and without the decisions of the
engine. -/
def CheckedStmt.spec (env : CheckedEnv) : CheckedStmt → Rows → Option (List (RowKey × Option Tuple))
  | precondition store now pc, T =>
    if storedPreconditionHolds env.catalog store now T pc then some [] else none
  | decision _ _ _, _ => some []
  | st, T => st.exec env T

/-- The rows that a statement reads for a precondition, or writes. -/
def CheckedStmt.touches (env : CheckedEnv) : CheckedStmt → RowKey → Prop
  | precondition store _ pc, k => pc.isStored = true ∧ pc.fits env.catalog store k = true
  | write _ ops, k => ∃ op ∈ ops, op.key = k
  | _, _ => False

/-- The lock of the store is held exclusively, or it is held together with the lock of the object of
the row. -/
def guardsRow (env : CheckedEnv) (held : List (ℤ × Mode)) (k : RowKey) : Prop :=
  ∃ store, env.catalog.s store = some k.storeId ∧
    ((env.hashtextextended (storeLock store), Mode.exclusive) ∈ held ∨
      ∃ mode objectType text, (env.hashtextextended (storeLock store), mode) ∈ held ∧
        env.catalog.t k.storeId objectType = some k.objectType ∧
        objectLock store (some objectType, some k.objectId) = some text ∧
        (env.hashtextextended text, Mode.exclusive) ∈ held)

theorem isStored_iff {pc : JsonElement} :
    pc.isStored = true ↔ pc.matchKind = some .mustExist ∨ pc.matchKind = some .mustBeAbsent := by
  simp [JsonElement.isStored]

theorem storedPreconditionHolds_congr {c : Catalog} {store : ℕ} {now : ℤ} {pc : JsonElement}
    {T T' : Rows}
    (h : pc.isStored = true → ∀ k, pc.fits c store k = true → T.lookup k = T'.lookup k) :
    storedPreconditionHolds c store now T pc = storedPreconditionHolds c store now T' pc := by
  unfold storedPreconditionHolds
  split
  · rename_i hkind
    exact preconditionMatches_congr (h (isStored_iff.mpr (.inl hkind)))
  · rename_i hkind
    rw [preconditionMatches_congr (h (isStored_iff.mpr (.inr hkind)))]
  · rfl

/-- A precondition that the call goes on after holds, if it is about stored tuples. -/
theorem storedPreconditionHolds_of_passes {env : CheckedEnv} {store : ℕ} {now : ℤ} {T : Rows}
    {pc : JsonElement} (h : preconditionPasses env store now T pc = true) :
    storedPreconditionHolds env.catalog store now T pc = true := by
  unfold preconditionPasses at h
  unfold storedPreconditionHolds
  cases hkind : pc.matchKind with
  | none => rfl
  | some kind =>
    rw [hkind] at h
    cases kind with
    | mustExist => exact h
    | mustBeAbsent => exact h
    | allowed => rfl
    | denied => rfl

/-- Two transactions that guard one row hold conflicting locks: of the store, if one of them has it
exclusively, or else of the object. -/
theorem conflict_of_guardsRow {env : CheckedEnv} {held held' : List (ℤ × Mode)} {k : RowKey}
    (h : guardsRow env held k) (h' : guardsRow env held' k) :
    ∃ a ∈ held, ∃ b ∈ held', Conflict a b := by
  obtain ⟨store, hs, h⟩ := h
  obtain ⟨store', hs', h'⟩ := h'
  obtain rfl := env.catalog.s_inj hs hs'
  rcases h with hex | ⟨mode, ot, text, hmode, hot, htext, hobj⟩
  · rcases h' with hex' | ⟨mode', -, -, hmode', -⟩
    · exact ⟨_, hex, _, hex', rfl, .inl rfl⟩
    · exact ⟨_, hex, _, hmode', rfl, .inl rfl⟩
  · rcases h' with hex' | ⟨mode', ot', text', -, hot', htext', hobj'⟩
    · exact ⟨_, hmode, _, hex', rfl, .inr rfl⟩
    · obtain rfl := env.catalog.t_inj hot hot'
      obtain rfl := Option.some.inj (htext.symm.trans htext')
      exact ⟨_, hobj, _, hobj', rfl, .inl rfl⟩

/-- What the statements of the calls touch and which locks guard it. -/
def checkedGuarding (env : CheckedEnv) : Guarding (checkedSystem env) where
  spec := CheckedStmt.spec env
  touches := CheckedStmt.touches env
  guards := guardsRow env
  spec_of_exec := by
    intro st T chs h
    cases st with
    | lock text mode => exact h
    | require ok => exact h
    | precondition store now pc =>
      replace h : (if preconditionPasses env store now T pc then some [] else none) = some chs := h
      split at h
      · rename_i hpass
        rw [CheckedStmt.spec, if_pos (storedPreconditionHolds_of_passes hpass)]
        exact h
      · cases h
    | decision store now q =>
      replace h : (if env.decide now store T q = some true then some [] else none) = some chs := h
      split at h
      · exact h
      · cases h
    | write now ops => exact h
  spec_congr := by
    intro st T T' h
    cases st with
    | lock text mode => rfl
    | require ok => rfl
    | precondition store now pc =>
      rw [CheckedStmt.spec, CheckedStmt.spec,
        storedPreconditionHolds_congr fun hstored k hk => h k ⟨hstored, hk⟩]
    | decision store now q => rfl
    | write now ops => exact congrArg some (changesOf_congr fun op hop => h op.key ⟨op, hop, rfl⟩)
  touches_of_spec := by
    intro st T chs h c hc
    cases st with
    | lock text mode =>
      cases h
      cases hc
    | require ok =>
      replace h : (if ok then some [] else none) = some chs := h
      split at h <;> cases h
      cases hc
    | precondition store now pc =>
      rw [CheckedStmt.spec] at h
      split at h <;> cases h
      cases hc
    | decision store now q =>
      cases h
      cases hc
    | write now ops =>
      cases h
      exact key_mem_of_changesOf c hc
  guards_mono := by
    rintro held held' k hsub ⟨store, hs, h⟩
    refine ⟨store, hs, ?_⟩
    rcases h with hex | ⟨mode, ot, text, hmode, hot, htext, hobj⟩
    · exact .inl (hsub hex)
    · exact .inr ⟨mode, ot, text, hsub hmode, hot, htext, hsub hobj⟩
  conflict_of_guards := conflict_of_guardsRow

/-! ## Well-locked calls -/

/-- Every object that the call relies on or writes has a lock: the lock of the store is exclusive, or
no array is `NULL` and every precondition on stored tuples gives the object and its type. -/
def Call.NamesItsObjects : Call → Prop
  | writeTuplesChecked _ preconditions deletes writes =>
    partialPrecondition preconditions = true ∨
      (preconditions.isSome = true ∧ deletes.isSome = true ∧ writes.isSome = true ∧
        ∀ pc ∈ preconditions.getD [], pc.isStored = true →
          (pc.text "object_type").isSome = true ∧ (pc.text "object_id").isSome = true)
  | _ => True

instance : (c : Call) → Decidable c.NamesItsObjects
  | .writeTuplesChecked _ preconditions _ _ => inferInstanceAs (Decidable (_ ∨ _ ∧ _ ∧ _ ∧
      ∀ pc ∈ preconditions.getD [], pc.isStored = true → _))
  | .grant _ _ _ _ _ => .isTrue trivial
  | .revoke _ _ _ _ _ => .isTrue trivial
  | .applyGrants _ _ _ _ _ _ => .isTrue trivial

/-- The row that a write is about lies on the object that its element names. -/
def NamesRow (c : Catalog) (store : ℕ) (e : JsonElement) (op : TupleOp) : Prop :=
  op.key.storeId = store ∧ e.text "object_id" = some op.key.objectId ∧
    ∃ objectType, e.text "object_type" = some objectType ∧
      c.t store objectType = some op.key.objectType

section Locks

variable {env : CheckedEnv} {store : String} {id : ℕ} {e : JsonElement} {op : TupleOp}

theorem tupleInput_eq_some {c : Catalog} {t : Tuple} (h : tupleInput c id e = some t) :
    e.text "object_id" = some t.objectId ∧
      ∃ objectType, e.text "object_type" = some objectType ∧ c.t id objectType = some t.objectType := by
  simp only [tupleInput, Option.bind_eq_bind, Option.bind_eq_some_iff, Option.pure_def] at h
  obtain ⟨_, _, _, _, _, _, ot, ⟨name, hname, hot⟩, oid, hoid, _, _, h⟩ := h
  cases h
  exact ⟨hoid, name, hname, hot⟩

theorem namesRow_deleteOp {c : Catalog} (h : deleteOp c id e = some op) : NamesRow c id e op := by
  obtain ⟨t, ht, rfl⟩ := Option.map_eq_some_iff.mp h
  exact ⟨rfl, tupleInput_eq_some ht⟩

theorem namesRow_batchOp {c : Catalog} (h : batchOp c id e = some op) : NamesRow c id e op := by
  obtain ⟨t, ht, rfl⟩ := Option.map_eq_some_iff.mp h
  exact ⟨rfl, tupleInput_eq_some ht⟩

theorem namesRow_upsertOp (h : upsertOp env id e = some op) : NamesRow env.catalog id e op := by
  simp only [upsertOp, Option.bind_eq_bind, Option.bind_eq_some_iff, Option.pure_def] at h
  obtain ⟨t, ht, _, _, _, _, h⟩ := h
  cases h
  exact ⟨rfl, tupleInput_eq_some ht⟩

/-- What the statements of one write touch are the rows of its elements. -/
theorem exists_of_touches_writeAll {now : ℤ} {ops : List (Option TupleOp)} {st : CheckedStmt}
    {k : RowKey} (hst : st ∈ writeAll now ops) (hk : st.touches env k) :
    ∃ op, some op ∈ ops ∧ op.key = k := by
  rcases List.mem_cons.mp hst with rfl | hst
  · exact hk.elim
  · rw [List.mem_singleton.mp hst] at hk
    obtain ⟨op, hop, hkey⟩ := hk
    obtain ⟨o, ho, heq⟩ := List.mem_filterMap.mp hop
    exact ⟨op, heq ▸ ho, hkey⟩

theorem lockStmts_touches {mode : Mode} {objects : List (Option String × Option String)} :
    ∀ st ∈ lockStmts store mode objects, ∀ k, ¬ st.touches env k := by
  intro st hst k hk
  rcases List.mem_cons.mp hst with rfl | hst
  · exact hk
  · obtain ⟨o, -, rfl⟩ := List.mem_map.mp hst
    exact hk

/-- A lock statement of a text that is not `NULL` takes its lock. -/
theorem mem_locks_of_mem {sts : List CheckedStmt} {text : String} {mode : Mode}
    (h : CheckedStmt.lock (some text) mode ∈ sts) :
    (env.hashtextextended text, mode) ∈ sts.flatMap (CheckedStmt.locks env) :=
  List.mem_flatMap.mpr ⟨_, h, List.mem_singleton_self _⟩

theorem storeLock_mem {mode : Mode} {objects : List (Option String × Option String)} :
    (env.hashtextextended (storeLock store), mode) ∈
      (lockStmts store mode objects).flatMap (CheckedStmt.locks env) :=
  mem_locks_of_mem List.mem_cons_self

/-- The locks of a call guard the rows on an object that it names. -/
theorem guardsRow_of_object {mode : Mode} {objects : List (Option String × Option String)}
    {k : RowKey} {objectType : String} (hs : env.catalog.s store = some k.storeId)
    (ht : env.catalog.t k.storeId objectType = some k.objectType)
    (hobj : (some objectType, some k.objectId) ∈ objects) :
    guardsRow env ((lockStmts store mode objects).flatMap (CheckedStmt.locks env)) k := by
  refine ⟨store, hs, .inr ⟨mode, objectType, _, storeLock_mem, ht, rfl, mem_locks_of_mem ?_⟩⟩
  exact List.mem_cons_of_mem _ (List.mem_map.mpr ⟨_, hobj, rfl⟩)

theorem mem_distinctObjects {elements : List JsonElement} (h : e ∈ elements) :
    (e.text "object_type", e.text "object_id") ∈ distinctObjects elements := by
  rw [distinctObjects, List.mem_insertionSort, List.mem_dedup]
  exact List.mem_map.mpr ⟨e, h, rfl⟩

/-- The object of a row that a write is about, under the locks of a call that names it. -/
theorem NamesRow.guards {mode : Mode} {objects : List (Option String × Option String)}
    (h : NamesRow env.catalog id e op) (hs : env.catalog.s store = some id)
    (hobj : (e.text "object_type", e.text "object_id") ∈ objects) :
    guardsRow env ((lockStmts store mode objects).flatMap (CheckedStmt.locks env)) op.key := by
  obtain ⟨rfl, hoid, objectType, htext, ht⟩ := h
  rw [htext, hoid] at hobj
  exact guardsRow_of_object hs ht hobj

/-- An element with an object and its type is among those whose objects are locked. -/
theorem mem_lockedObjects {preconditions deletes writes : List JsonElement}
    (he : e ∈ preconditions ++ deletes ++ writes) {objectType objectId : String}
    (htype : e.text "object_type" = some objectType) (hid : e.text "object_id" = some objectId) :
    (e.text "object_type", e.text "object_id") ∈
      lockedObjects (some preconditions) (some deletes) (some writes) := by
  refine mem_distinctObjects (List.mem_filter.mpr ⟨he, ?_⟩)
  rw [JsonElement.hasKey_of_text htype, JsonElement.hasKey_of_text hid]
  rfl

end Locks

/-- The rows that a precondition reads lie on its object, if it names one. -/
theorem fits_object {c : Catalog} {store : ℕ} {pc : JsonElement} {k : RowKey}
    (h : pc.fits c store k = true) :
    k.storeId = store ∧
      (∀ name, pc.text "object_type" = some name → c.t store name = some k.objectType) ∧
      ∀ oid, pc.text "object_id" = some oid → k.objectId = oid := by
  simp only [JsonElement.fits, Bool.and_eq_true, decide_eq_true_eq] at h
  obtain ⟨⟨⟨⟨⟨⟨hstore, htype⟩, hid⟩, -⟩, -⟩, -⟩, -⟩ := h
  refine ⟨hstore, fun name hname => ?_, fun oid hoid => ?_⟩
  · rw [hname] at htype
    exact of_decide_eq_true htype
  · rw [hoid] at hid
    exact of_decide_eq_true hid

section Programs

variable {env : CheckedEnv} {now : ℤ} {store : String} {id : ℕ}

/-- What the writes of `write_tuples_jsonb` touch. -/
theorem exists_of_touches_writeTuplesJsonb {tuples : List JsonElement} {st : CheckedStmt}
    {k : RowKey} (hst : st ∈ writeTuplesJsonb env now id tuples) (hk : st.touches env k) :
    ∃ e ∈ tuples, ∃ op, NamesRow env.catalog id e op ∧ op.key = k := by
  rcases List.mem_append.mp hst with hst | hst
  · obtain ⟨op, hop, hkey⟩ := exists_of_touches_writeAll hst hk
    obtain ⟨e, he, heq⟩ := List.mem_map.mp hop
    exact ⟨e, List.mem_of_mem_filter he, op, namesRow_batchOp heq, hkey⟩
  · obtain ⟨e, he, hst⟩ := List.mem_flatMap.mp hst
    obtain ⟨op, hop, hkey⟩ := exists_of_touches_writeAll hst hk
    exact ⟨e, List.mem_of_mem_filter he, op, namesRow_upsertOp (List.mem_singleton.mp hop).symm, hkey⟩

/-- What the statements of `write_tuples_checked` after its locks touch: the rows of its
preconditions on stored tuples, and the rows on the objects of its elements. -/
theorem exists_of_touches_checked {preconditions deletes writes : List JsonElement}
    {st : CheckedStmt} {k : RowKey}
    (hst : st ∈ preconditions.map (.precondition id now) ++
      (writeAll now (deletes.map (deleteOp env.catalog id)) ++ writeTuplesJsonb env now id writes))
    (hk : st.touches env k) :
    (∃ pc ∈ preconditions, pc.isStored = true ∧ pc.fits env.catalog id k = true) ∨
      ∃ e ∈ deletes ++ writes, ∃ op, NamesRow env.catalog id e op ∧ op.key = k := by
  rcases List.mem_append.mp hst with hst | hst
  · obtain ⟨pc, hpc, rfl⟩ := List.mem_map.mp hst
    exact .inl ⟨pc, hpc, hk⟩
  rcases List.mem_append.mp hst with hst | hst
  · obtain ⟨op, hop, hkey⟩ := exists_of_touches_writeAll hst hk
    obtain ⟨e, he, heq⟩ := List.mem_map.mp hop
    exact .inr ⟨e, List.mem_append_left _ he, op, namesRow_deleteOp heq, hkey⟩
  · obtain ⟨e, he, op, hnames, hkey⟩ := exists_of_touches_writeTuplesJsonb hst hk
    exact .inr ⟨e, List.mem_append_right _ he, op, hnames, hkey⟩

/-- **A checked write that names its objects, or takes the store alone, is well locked.** -/
theorem wellLocked_writeTuplesChecked {preconditions deletes writes : Option (List JsonElement)}
    (h : (Call.writeTuplesChecked store preconditions deletes writes).NamesItsObjects) :
    WellLocked (checkedGuarding env) []
      (writeTuplesChecked env now store preconditions deletes writes) := by
  unfold writeTuplesChecked
  split
  · exact ⟨fun k hk => hk.elim, fun _ => trivial⟩
  rename_i id hs
  refine wellLocked_append lockStmts_touches fun _ => wellLocked_of_guarded fun st hst k hk => ?_
  rw [List.nil_append]
  have htouch := exists_of_touches_checked hst hk
  rcases h with hpartial | ⟨hp, hd, hw, hnames⟩
  · -- the lock of the store is exclusive and guards every row of the store
    rw [if_pos hpartial]
    refine ⟨store, ?_, .inl storeLock_mem⟩
    rcases htouch with ⟨pc, -, -, hfits⟩ | ⟨e, -, op, hrow, rfl⟩
    · rw [(fits_object hfits).1, hs]
    · rw [hrow.1, hs]
  · -- every object has its own lock
    obtain ⟨preconditions, rfl⟩ := Option.isSome_iff_exists.mp hp
    obtain ⟨deletes, rfl⟩ := Option.isSome_iff_exists.mp hd
    obtain ⟨writes, rfl⟩ := Option.isSome_iff_exists.mp hw
    rcases htouch with ⟨pc, hpc, hstored, hfits⟩ | ⟨e, he, op, hrow, rfl⟩
    · obtain ⟨htype, hid⟩ := hnames pc hpc hstored
      obtain ⟨objectType, htype⟩ := Option.isSome_iff_exists.mp htype
      obtain ⟨objectId, hid⟩ := Option.isSome_iff_exists.mp hid
      obtain ⟨rfl, hot, hoid⟩ := fits_object hfits
      refine guardsRow_of_object hs (hot objectType htype) ?_
      have hmem : pc ∈ preconditions ++ deletes ++ writes := by simp [show pc ∈ preconditions from hpc]
      have hobj := mem_lockedObjects hmem htype hid
      rwa [htype, hid, ← hoid objectId hid] at hobj
    · have hobject := hrow.2
      obtain ⟨hoid, objectType, htype, -⟩ := hobject
      refine hrow.guards hs (mem_lockedObjects ?_ htype hoid)
      rw [List.append_assoc]
      exact List.mem_append_right _ he

/-- The statements of `_grant_rule_check` touch no row, and where they can succeed they take the
locks of the store and of the object. -/
theorem grantRuleCheck_spec {actorType actorId : String} {e : JsonElement} {isRevoke : Bool}
    {context : Option Context} :
    (∀ st ∈ grantRuleCheck env now store id actorType actorId e isRevoke context,
      ∀ k, ¬ st.touches env k) ∧
    ((∀ st ∈ grantRuleCheck env now store id actorType actorId e isRevoke context,
        ∃ T chs, st.spec env T = some chs) →
      lockStmts store .shared [(e.text "object_type", e.text "object_id")] ⊆
        grantRuleCheck env now store id actorType actorId e isRevoke context) := by
  unfold grantRuleCheck
  split
  · refine ⟨fun st hst k hk => ?_, fun h => ?_⟩
    · rw [List.mem_singleton.mp hst] at hk
      exact hk
    · obtain ⟨T, chs, hspec⟩ := h _ (List.mem_singleton_self _)
      cases hspec
  · refine ⟨fun st hst k hk => ?_, fun _ => List.subset_append_left _ _⟩
    rcases List.mem_append.mp hst with hst | hst
    · exact lockStmts_touches st hst k hk
    · rw [List.mem_singleton.mp hst] at hk
      exact hk

/-- After a rule check that has gone through, the row of its entry is guarded. -/
theorem NamesRow.guards_of_check {actorType actorId : String} {e : JsonElement} {op : TupleOp}
    {isRevoke : Bool} {context : Option Context} (h : NamesRow env.catalog id e op)
    (hs : env.catalog.s store = some id) {sts : List CheckedStmt}
    (hsub : grantRuleCheck env now store id actorType actorId e isRevoke context ⊆ sts)
    (hall : ∀ st ∈ sts, ∃ T chs, st.spec env T = some chs) :
    guardsRow env (sts.flatMap (CheckedStmt.locks env)) op.key := by
  have hlocks := grantRuleCheck_spec.2 fun st hst => hall st (hsub hst)
  have hguards : guardsRow env
      ((lockStmts store .shared [(e.text "object_type", e.text "object_id")]).flatMap
        (CheckedStmt.locks env)) op.key := h.guards hs (List.mem_singleton_self _)
  refine (checkedGuarding env).guards_mono (fun a ha => ?_) hguards
  obtain ⟨st, hst, ha⟩ := List.mem_flatMap.mp ha
  exact List.mem_flatMap.mpr ⟨st, hsub (hlocks hst), ha⟩

theorem exists_of_touches_revokeStmts {e : JsonElement} {st : CheckedStmt} {k : RowKey}
    (hst : st ∈ revokeStmts env.catalog now id e) (hk : st.touches env k) :
    ∃ op, NamesRow env.catalog id e op ∧ op.key = k := by
  unfold revokeStmts at hst
  split at hst
  · cases hst
  · obtain ⟨op, hop, hkey⟩ := exists_of_touches_writeAll hst hk
    exact ⟨op, namesRow_deleteOp (List.mem_singleton.mp hop).symm, hkey⟩

theorem exists_of_touches_upsert {e : JsonElement} {st : CheckedStmt} {k : RowKey}
    (hst : st ∈ writeAll now [upsertOp env id e]) (hk : st.touches env k) :
    ∃ op, NamesRow env.catalog id e op ∧ op.key = k := by
  obtain ⟨op, hop, hkey⟩ := exists_of_touches_writeAll hst hk
  exact ⟨op, namesRow_upsertOp (List.mem_singleton.mp hop).symm, hkey⟩

/-- One entry: its rule check, and then the writes on its object. -/
theorem wellLocked_entry {actorType actorId : String} {e : JsonElement} {isRevoke : Bool}
    {context : Option Context} {sts : List CheckedStmt} (hs : env.catalog.s store = some id)
    (hsts : ∀ st ∈ sts, ∀ k, st.touches env k →
      ∃ op, NamesRow env.catalog id e op ∧ op.key = k) :
    WellLocked (checkedGuarding env) []
      (grantRuleCheck env now store id actorType actorId e isRevoke context ++ sts) := by
  refine wellLocked_append grantRuleCheck_spec.1 fun hall => ?_
  refine wellLocked_of_guarded fun st hst k hk => ?_
  obtain ⟨op, hrow, rfl⟩ := hsts st hst k hk
  exact hrow.guards_of_check hs (List.Subset.refl _) hall

/-- **A batch of grants and revokes is well locked**: every entry has taken its locks before the first
one is written. -/
theorem wellLocked_applyGrants {actorType actorId : String} {grants revokes : Option (List JsonElement)}
    {context : Option Context} :
    WellLocked (checkedGuarding env) []
      (applyGrants env now store actorType actorId grants revokes context) := by
  unfold applyGrants
  split
  · exact ⟨fun k hk => hk.elim, fun _ => trivial⟩
  rename_i id hs
  refine wellLocked_append (fun st hst k hk => ?_) fun hall => ?_
  · rcases List.mem_append.mp hst with hst | hst
    · exact lockStmts_touches st hst k hk
    rcases List.mem_append.mp hst with hst | hst
    · obtain ⟨e, -, hst⟩ := List.mem_flatMap.mp hst
      exact grantRuleCheck_spec.1 st hst k hk
    · obtain ⟨e, -, hst⟩ := List.mem_flatMap.mp hst
      exact grantRuleCheck_spec.1 st hst k hk
  refine wellLocked_of_guarded fun st hst k hk => ?_
  rw [List.nil_append]
  rcases List.mem_append.mp hst with hst | hst
  · obtain ⟨e, he, hst⟩ := List.mem_flatMap.mp hst
    obtain ⟨op, hrow, rfl⟩ := exists_of_touches_revokeStmts hst hk
    exact hrow.guards_of_check hs (fun st hst => List.mem_append_right _
      (List.mem_append_left _ (List.mem_flatMap.mpr ⟨e, he, hst⟩))) hall
  · obtain ⟨e, he, hst⟩ := List.mem_flatMap.mp hst
    obtain ⟨op, hrow, rfl⟩ := exists_of_touches_upsert hst hk
    exact hrow.guards_of_check hs (fun st hst => List.mem_append_right _
      (List.mem_append_right _ (List.mem_flatMap.mpr ⟨e, he, hst⟩))) hall

/-- **Every call that names its objects is well locked.** -/
theorem wellLocked_program (r : TimedCall) (h : r.call.NamesItsObjects) :
    WellLocked (checkedGuarding env) [] (r.program env) := by
  obtain ⟨now, call⟩ := r
  cases call with
  | writeTuplesChecked store preconditions deletes writes => exact wellLocked_writeTuplesChecked h
  | grant store actorType actorId e context =>
    show WellLocked _ [] (grant env now store actorType actorId e context)
    unfold grant
    split
    · exact ⟨fun k hk => hk.elim, fun _ => trivial⟩
    · rename_i id hs
      exact wellLocked_entry hs fun st hst k hk => exists_of_touches_upsert hst hk
  | revoke store actorType actorId e context =>
    show WellLocked _ [] (revoke env now store actorType actorId e context)
    unfold revoke
    split
    · exact ⟨fun k hk => hk.elim, fun _ => trivial⟩
    · rename_i id hs
      exact wellLocked_entry hs fun st hst k hk => exists_of_touches_revokeStmts hst hk
  | applyGrants store actorType actorId grants revokes context => exact wellLocked_applyGrants

end Programs

/-! ## Calls one after the other -/

section Serial

variable {env : CheckedEnv}

/-- A statement that succeeds alone leaves the rows after its writes. -/
theorem putAll_of_spec {st : CheckedStmt} {T : Rows} {chs : List (RowKey × Option Tuple)}
    (h : st.spec env T = some chs) : rowsTable.putAll T chs = st.apply T := by
  cases st with
  | lock text mode =>
    cases h
    rfl
  | require ok =>
    replace h : (if ok then some [] else none) = some chs := h
    split at h <;> cases h
    rfl
  | precondition store now pc =>
    rw [CheckedStmt.spec] at h
    split at h <;> cases h
    rfl
  | decision store now q =>
    cases h
    rfl
  | write now ops =>
    cases h
    rfl

theorem putAll_of_effects {sts : List CheckedStmt} {T : Rows} {chs : List (RowKey × Option Tuple)}
    (h : effects rowsTable (CheckedStmt.spec env) sts T = some chs) :
    rowsTable.putAll T chs = sts.foldl CheckedStmt.apply T := by
  induction sts generalizing T chs with
  | nil =>
    cases h
    rfl
  | cons st sts ih =>
    obtain ⟨chs₁, chs₂, h₁, h₂, rfl⟩ := effects_cons.mp h
    rw [rowsTable.putAll_append, ih h₂, putAll_of_spec h₁, List.foldl_cons]

/-- Preconditions that pass one after the other hold in the state before them. -/
theorem storedPreconditionHolds_of_effects {id : ℕ} {now : ℤ} {preconditions : List JsonElement}
    {T : Rows} {chs : List (RowKey × Option Tuple)}
    (h : effects rowsTable (CheckedStmt.spec env) (preconditions.map (.precondition id now)) T =
      some chs) :
    ∀ pc ∈ preconditions, storedPreconditionHolds env.catalog id now T pc = true := by
  induction preconditions generalizing chs with
  | nil => simp
  | cons pc preconditions ih =>
    obtain ⟨chs₁, chs₂, h₁, h₂, -⟩ := effects_cons.mp h
    rw [putAll_of_spec h₁] at h₂
    intro pc' hpc'
    rcases List.mem_cons.mp hpc' with rfl | hpc'
    · rw [CheckedStmt.spec] at h₁
      split at h₁
      · assumption
      · cases h₁
    · exact ih h₂ pc' hpc'

/-- The lock statements of a call write nothing. -/
theorem foldl_apply_lockStmts {store : String} {mode : Mode}
    {objects : List (Option String × Option String)} {T : Rows} :
    (lockStmts store mode objects).foldl CheckedStmt.apply T = T := by
  rw [lockStmts, List.foldl_cons, List.foldl_map]
  exact List.foldl_fixed' (fun _ => rfl) objects

/-- **A call that succeeds alone has its preconditions true in the state before it.** -/
theorem preconditionsHold_of_effects {r : TimedCall} {T : Rows}
    {chs : List (RowKey × Option Tuple)}
    (h : effects rowsTable (CheckedStmt.spec env) (r.program env) T = some chs) :
    r.preconditionsHold env T = true := by
  obtain ⟨now, call⟩ := r
  cases call with
  | writeTuplesChecked store preconditions deletes writes =>
    replace h : effects rowsTable (CheckedStmt.spec env)
      (writeTuplesChecked env now store preconditions deletes writes) T = some chs := h
    unfold writeTuplesChecked at h
    show (env.catalog.s store).any _ = true
    cases hs : env.catalog.s store with
    | none =>
      rw [hs] at h
      cases h
    | some id =>
      rw [hs] at h
      obtain ⟨chs₁, _, h₁, h₂, -⟩ := effects_append.mp h
      rw [putAll_of_effects h₁, foldl_apply_lockStmts] at h₂
      obtain ⟨chs₂, _, h₃, -⟩ := effects_append.mp h₂
      exact List.all_eq_true.mpr (storedPreconditionHolds_of_effects h₃)
  | grant store actorType actorId e context => rfl
  | revoke store actorType actorId e context => rfl
  | applyGrants store actorType actorId grants revokes context => rfl

/-- Calls that succeed one after the other leave the rows after their writes. -/
theorem putAll_of_programs {calls : List TimedCall} {T : Rows}
    {chs : List (RowKey × Option Tuple)}
    (h : effects rowsTable (CheckedStmt.spec env) (calls.flatMap (TimedCall.program env)) T =
      some chs) :
    rowsTable.putAll T chs = calls.foldl (TimedCall.apply env) T := by
  rw [putAll_of_effects h, List.foldl_flatMap]
  rfl

/-- Every call of the run locks the objects that it relies on or writes. -/
def CallsNameObjects (_ : State ℤ RowKey (Option Tuple) Rows CheckedStmt TimedCall) :
    Event TimedCall → Prop
  | .request _ r => r.call.NamesItsObjects
  | _ => True

instance (s : State ℤ RowKey (Option Tuple) Rows CheckedStmt TimedCall) :
    (e : Event TimedCall) → Decidable (CallsNameObjects s e)
  | .request _ r => inferInstanceAs (Decidable r.call.NamesItsObjects)
  | .start => .isTrue trivial
  | .exec _ => .isTrue trivial
  | .commit _ => .isTrue trivial
  | .abort _ => .isTrue trivial

/-- **Checked writes are serialisable.** In every run whose calls name their objects, with any
interleaving of their statements and any number of calls in a transaction: every call that has
committed had all of its `exists` and `absent` preconditions true in the state formed by the calls
that committed before it, and the rows are those that the committed calls leave one after the
other. -/
theorem writeTuplesChecked_serialisable {T₀ : Rows} {es : List (Event TimedCall)}
    {s : State ℤ RowKey (Option Tuple) Rows CheckedStmt TimedCall}
    (hok : Along (step (checkedSystem env)) CallsNameObjects (State.init T₀) es)
    (hrun : run (step (checkedSystem env)) (State.init T₀) es = some s) :
    (∀ before r after, s.committed = before ++ r :: after →
      r.preconditionsHold env (before.foldl (TimedCall.apply env) T₀) = true) ∧
    s.table = s.committed.foldl (TimedCall.apply env) T₀ := by
  have hwell : Along (step (checkedSystem env)) (RequestsWellLocked (checkedGuarding env))
      (State.init T₀) es := by
    refine hok.mono fun s e he => ?_
    cases e with
    | request i r => exact wellLocked_program r he
    | start => trivial
    | exec i => trivial
    | commit i => trivial
    | abort i => trivial
  obtain ⟨chs, heff, htable⟩ := serialisable (checkedGuarding env) hwell hrun
  refine ⟨fun before r after hsplit => ?_, ?_⟩
  · rw [hsplit, List.flatMap_append, List.flatMap_cons] at heff
    obtain ⟨chs₁, _, h₁, h₂, -⟩ := effects_append.mp heff
    obtain ⟨_, _, h₃, -⟩ := effects_append.mp h₂
    rw [← putAll_of_programs h₁]
    exact preconditionsHold_of_effects h₃
  · rw [← htable]
    exact putAll_of_programs heff

end Serial

/-! ## Preconditions with a JSON null -/

/-- A store of documents that users own. -/
def docsEnv : CheckedEnv where
  catalog :=
    { stores := [(1, "docs")]
      types := [⟨1, 1, "doc"⟩, ⟨2, 1, "user"⟩]
      relations := [⟨1, 1, "owner"⟩]
      conditions := []
      store_unique := by decide
      type_unique := by decide }
  grantRules := []
  hashtextextended text := text.toList.foldl (fun h c => 31 * h + c.toNat) 7
  timestamptz _ := none
  jsonObject _ := none
  decide _ _ _ _ := some false

/-- Alice becomes the owner of a document if she owns none: the precondition has the two keys of the
object as given. -/
def becomeOwner (object : List (String × Option String)) (doc : String) : TimedCall :=
  ⟨0, .writeTuplesChecked "docs"
    (some [.object ([("match", some "absent"), ("user_type", some "user"), ("user_id", some "alice"),
      ("relation", some "owner")] ++ object)])
    (some [])
    (some [.object [("user_type", some "user"), ("user_id", some "alice"),
      ("relation", some "owner"), ("object_type", some "doc"), ("object_id", some doc)]])⟩

/-- Two transactions send a request each; the second one starts after the first one has committed. -/
def oneAfterTheOther (r r' : TimedCall) (n : ℕ) : List (Event TimedCall) :=
  [Event.start, .request 0 r] ++ List.replicate n (Event.exec 0) ++ [Event.commit 0] ++
    [Event.start, .request 0 r', .exec 0, .exec 0, .abort 0]

/-- Alice becomes the owner of one document under a precondition without the keys of the object. The
second call would find her an owner. -/
theorem writeTuplesChecked_serialisable_owner :
    ∃ s, run (step (checkedSystem docsEnv)) (State.init ∅)
        (oneAfterTheOther (becomeOwner [] "a") (becomeOwner [] "b") 7) = some s ∧
      s.committed = [becomeOwner [] "a"] ∧
      (becomeOwner [] "a").preconditionsHold docsEnv ∅ = true ∧
      s.table = (becomeOwner [] "a").apply docsEnv ∅ := by
  have hok : Along (step (checkedSystem docsEnv)) CallsNameObjects (State.init ∅)
      (oneAfterTheOther (becomeOwner [] "a") (becomeOwner [] "b") 7) := by decide +kernel
  have hcommitted : (run (step (checkedSystem docsEnv)) (State.init ∅)
      (oneAfterTheOther (becomeOwner [] "a") (becomeOwner [] "b") 7)).map State.committed =
      some [becomeOwner [] "a"] := by decide +kernel
  obtain ⟨s, hs, hcommitted⟩ := Option.map_eq_some_iff.mp hcommitted
  obtain ⟨hholds, htable⟩ := writeTuplesChecked_serialisable hok hs
  refine ⟨s, hs, hcommitted, hholds [] _ [] hcommitted, ?_⟩
  rw [htable, hcommitted]
  rfl

/-- The keys of the object are there, with a JSON null. -/
def nullObject : List (String × Option String) := [("object_type", none), ("object_id", none)]

/-- Two transactions check the precondition before one of them commits. -/
def sideBySide (r r' : TimedCall) (n : ℕ) : List (Event TimedCall) :=
  [Event.start, .start, .request 0 r, .request 1 r'] ++ List.replicate n (Event.exec 0) ++
    List.replicate n (Event.exec 1) ++ [Event.commit 0, .commit 0]

/-- Alice becomes the owner of two documents: both calls commit, and the precondition of the second
one is false in the state that the first one leaves. -/
theorem null_precondition_not_serialisable :
    ∃ s, run (step (checkedSystem docsEnv)) (State.init ∅)
        (sideBySide (becomeOwner nullObject "a") (becomeOwner nullObject "b") 8) = some s ∧
      ¬ ∀ before r after, s.committed = before ++ r :: after →
        r.preconditionsHold docsEnv (before.foldl (TimedCall.apply docsEnv) ∅) = true := by
  have hcommitted : (run (step (checkedSystem docsEnv)) (State.init ∅)
      (sideBySide (becomeOwner nullObject "a") (becomeOwner nullObject "b") 8)).map State.committed =
      some [becomeOwner nullObject "a", becomeOwner nullObject "b"] := by decide +kernel
  have hfalse : (becomeOwner nullObject "b").preconditionsHold docsEnv
      ((becomeOwner nullObject "a").apply docsEnv ∅) = false := by decide +kernel
  obtain ⟨s, hs, hcommitted⟩ := Option.map_eq_some_iff.mp hcommitted
  refine ⟨s, hs, fun hall => ?_⟩
  have htrue := hall [becomeOwner nullObject "a"] _ [] hcommitted
  rw [List.foldl_cons, List.foldl_nil, hfalse] at htrue
  cases htrue

end PgAuthz
