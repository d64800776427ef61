import Mathlib.Data.List.Sublists
import PgAuthz.Store.RuleRows
import PgAuthz.Transition.Versions

/-!
# Rule groups under concurrent edits

The calls that edit `authz.models`, as transactions at read committed: `model_add_rule`,
`model_remove_rule`, `model_remove_rules`, `model_remove_type` and `apply_model`, which also removes
relations. The operator of a group is tested before the insert, and the row trigger looks for the
base of a group once the statement is complete; each test reads what is committed and what its own
transaction has written. No lock orders two transactions that write different rules of one group.
What the other tests of a call refuse shows as an abort.

## Main definitions

* `Stmt`, `Request`, `ruleSystem`: the statements, the calls, and their transactions
* `pending x`: the groups that a transaction is still going to look at
* `TestsAnyway`: the next test passes whichever of the other open transactions had committed
* `Grouped rows`: the rules of a group carry one operator, and a negated rule is not alone

## Main results

* `grouped_along`: runs whose tests pass anyway keep the groups
* `grouped_serial`: so do transactions that run one at a time
* `concurrent_edits_break_groups`: two pairs of transactions that break a group
-/

namespace PgAuthz.RuleGroups

open RuleRows Transition Versions

/-! ## The calls -/

/-- The lock that removals take, and the lock of a relation of the model. -/
inductive Lock
  | removal
  | model (storeId objectType relation : ℕ)
deriving DecidableEq, Repr

/-- The rows that a delete is about: a rule by its id, the rules of a relation on a type, the rules of a
type, and the rules that a definition does not have. -/
inductive Selection
  | rule (storeId id : ℕ)
  | relation (storeId objectType relation : ℕ)
  | type (storeId objectType : ℕ)
  | stale (storeId : ℕ) (wanted : List Rule)
deriving DecidableEq, Repr

/-- The `WHERE` clause of a delete. -/
def Selection.selects (m : Row) : Selection → Bool
  | .rule s id => m.id = id && m.storeId = s
  | .relation s T r => m.storeId = s && m.rule.objectType = T && m.rule.relation = r
  | .type s T => m.storeId = s && m.rule.objectType = T
  | .stale s wanted => m.storeId = s && m.rule ∉ wanted

/-- The statements. A delete finds its rows first, and takes them one by one; the groups of the rows that
it has deleted so far are looked at when it is complete. -/
inductive Stmt
  | lock (l : Lock)
  | require (b : Bool)
  | checkOp (r : Row)
  | insert (r : Row)
  | checkBase (g : GroupKey)
  | find (sel : Selection)
  | delete (ids : List ℕ) (groups : List GroupKey)
  | dropType (storeId objectType : ℕ)
  | dropRelation (storeId relation : ℕ)
deriving DecidableEq, Repr

/-- A rule refers to a relation. -/
def names (ρ : Rule) (relation : ℕ) : Bool :=
  ρ.relation = relation || match ρ.body with
    | .direct => false
    | .computed r => r = relation
    | .ttu l r => l = relation || r = relation

/-- What a statement writes and sends on the rows that it sees, unless it raises. -/
def Stmt.exec (rows : List Row) : Stmt → Option (Option (Write Row Key) × List Stmt)
  | .lock _ => some (none, [])
  | .require b => if b then some (none, []) else none
  | .checkOp r => if usesOtherOp rows r then none else some (none, [.insert r])
  | .insert r =>
    if validRow (written rows r) then some (some (.put (written rows r)), [.checkBase r.group]) else none
  | .checkBase g => if groupHasBase rows g then some (none, []) else none
  | .find sel => some (none, [.delete ((rows.filter fun m => sel.selects m).map Row.id) []])
  | .delete [] groups => some (none, groups.map .checkBase)
  | .delete (id :: ids) groups =>
    match rows.find? fun m => m.id = id with
    | some m => some (some (.drop m.key), [.delete ids (groups ++ [m.group])])
    | none => some (none, [.delete ids groups])
  -- the foreign keys of the rules
  | .dropType storeId objectType =>
    if rows.any fun m => m.storeId = storeId && m.rule.objectType = objectType then none
    else some (none, [])
  | .dropRelation storeId relation =>
    if rows.any fun m => m.storeId = storeId && names m.rule relation then none else some (none, [])

/-- The calls. A new row comes with the id that the sequence gives it; the stale types and relations and
the relations to lock are read from tables that the rules do not depend on. -/
inductive Request
  | addRule (r : Row)
  | removeRule (storeId id : ℕ)
  | removeRules (storeId objectType relation : ℕ)
  | removeType (storeId objectType : ℕ)
  | applyModel (storeId : ℕ) (modelLocks : List (ℕ × ℕ)) (staleTypes : List ℕ) (rules : List Row)
      (staleRelations : List ℕ)

/-- `model_add_rule`. -/
def modelAddRule (r : Row) : List Stmt :=
  .require (!r.allowObjectWildcard || r.rule.body = .direct) ::
    if r.allowObjectWildcard then
      [.lock (.model r.storeId r.rule.objectType r.rule.relation), .checkOp r]
    else [.checkOp r]

/-- `model_remove_type`. -/
def modelRemoveType (storeId objectType : ℕ) : List Stmt :=
  [.lock .removal, .find (.type storeId objectType), .dropType storeId objectType]

/-- `apply_model`: the locks, the stale types, the stale rules, the rules of the definition, and the
stale relations. -/
def applyModel (storeId : ℕ) (modelLocks : List (ℕ × ℕ)) (staleTypes : List ℕ) (rules : List Row)
    (staleRelations : List ℕ) : List Stmt :=
  .lock .removal :: (modelLocks.map fun k => .lock (.model storeId k.1 k.2)) ++
    staleTypes.flatMap (modelRemoveType storeId) ++
    .find (.stale storeId (rules.map Row.rule)) :: rules.flatMap modelAddRule ++
    staleRelations.map (.dropRelation storeId)

/-- The script of a call. -/
def script : Request → List Stmt
  | .addRule r => modelAddRule r
  | .removeRule storeId id => [.find (.rule storeId id)]
  | .removeRules storeId objectType relation => [.find (.relation storeId objectType relation)]
  | .removeType storeId objectType => modelRemoveType storeId objectType
  | .applyModel storeId modelLocks staleTypes rules staleRelations =>
    applyModel storeId modelLocks staleTypes rules staleRelations

/-- The lock that a statement takes. -/
def Stmt.lock? : Stmt → Option Lock
  | .lock l => some l
  | _ => none

/-- Transactions that make such calls. -/
def ruleSystem : System Row Key Lock Stmt Request where
  key := Row.key
  conflicts a b := a = b
  script := RuleGroups.script
  lock := Stmt.lock?
  exec st rows := st.exec rows

/-- A state of the system. -/
abbrev RuleState := Versions.State Row Key Lock Stmt

/-- An open transaction of the system. -/
abbrev RuleTx := Versions.Tx Row Key Lock Stmt

/-! ## What is still looked at -/

/-- The groups that a statement looks at, or has looked at when it is complete. -/
def Stmt.pending : Stmt → List GroupKey
  | .checkBase g => [g]
  | .delete _ groups => groups
  | _ => []

/-- The groups that a transaction is still going to look at. -/
def pending (x : RuleTx) : List GroupKey := x.todo.flatMap Stmt.pending

/-- The next test of a transaction also passes if other open transactions had committed, whichever: the
operator test on the rules that are there when a new rule is inserted, and a base test that passes,
unless one of these transactions is itself still going to look at the group. -/
def TestsAnyway (s : RuleState) : Event Request → Prop
  | .exec i => ∀ x ∈ s.opened[i]?, ∀ T ∈ (s.opened.eraseIdx i).sublists,
    match x.todo.head? with
    | some (.insert r) => (∀ m ∈ view ruleSystem s.db x, m.key ≠ r.key) →
        usesOtherOp (mergedRows ruleSystem s.db (x :: T)) r = false
    | some (.checkBase g) => groupHasBase (view ruleSystem s.db x) g = true →
        (∀ y ∈ T, g ∉ pending y) → groupHasBase (mergedRows ruleSystem s.db (x :: T)) g = true
    | _ => True
  | _ => True

/-- The rules of every group carry one operator, and a group with a negated rule has one that is not. -/
structure Grouped (rows : List Row) : Prop where
  uniform : Uniform {m | m ∈ rows}
  based : ∀ g, Based {m | m ∈ rows} g

/-! ## The groups that transactions would leave -/

/-- One operator for each group, and a base for each group that nobody is still going to look at. -/
structure Leaves (P : Set Row) (T : Set RuleTx) : Prop where
  uniform : Uniform P
  based : ∀ g, (∀ y ∈ T, g ∉ pending y) → Based P g

variable {P : Set Row} {T : Set RuleTx} {x x' : RuleTx}

/-- Nothing is written, and what was pending still is or has been found in order. -/
theorem Leaves.keep (h : Leaves P (insert x T))
    (hpending : ∀ g ∈ pending x, g ∈ pending x' ∨ ((∀ y ∈ T, g ∉ pending y) → Based P g)) :
    Leaves P (insert x' T) where
  uniform := h.uniform
  based g hg := by
    obtain ⟨hx', hT⟩ := Set.forall_mem_insert.mp hg
    by_cases hx : g ∈ pending x
    · exact (hpending g hx).resolve_left hx' hT
    · exact h.based g (Set.forall_mem_insert.mpr ⟨hx, hT⟩)

/-- **A rule is written** with the operator of its group, and its group is pending. -/
theorem Leaves.put (h : Leaves P (insert x T)) {r : Row}
    (hop : ∀ m ∈ P, m.group = r.group → m.rule.groupOp = r.rule.groupOp)
    (hpending : ∀ g, g ∈ pending x ∨ g = r.group → g ∈ pending x') :
    Leaves {m | m ∈ P ∧ m.key ≠ r.key ∨ m = r} (insert x' T) where
  uniform := by
    rintro m (⟨hm, -⟩ | rfl) m' (⟨hm', -⟩ | rfl) hg
    · exact h.uniform m hm m' hm' hg
    · exact hop m hm hg
    · exact (hop m' hm' hg.symm).symm
    · rfl
  based g hg := by
    obtain ⟨hx', hT⟩ := Set.forall_mem_insert.mp hg
    have hne : g ≠ r.group := fun h => hx' (hpending g (.inr h))
    have hold := h.based g (Set.forall_mem_insert.mpr ⟨fun hx => hx' (hpending g (.inl hx)), hT⟩)
    rintro ⟨m, ⟨hm, -⟩ | rfl, hmg, hneg⟩
    · obtain ⟨b, hb, hbg, hbase⟩ := hold ⟨m, hm, hmg, hneg⟩
      refine ⟨b, .inl ⟨hb, fun hkey => hne ?_⟩, hbg, hbase⟩
      rw [← hbg, Row.group_eq_of_key hkey]
    · exact absurd hmg.symm hne

/-- **A rule is deleted**, and its group is pending. -/
theorem Leaves.drop (h : Leaves P (insert x T)) {r : Row}
    (hpending : ∀ g, g ∈ pending x ∨ g = r.group → g ∈ pending x') :
    Leaves {m | m ∈ P ∧ m.key ≠ r.key} (insert x' T) where
  uniform m hm m' hm' hg := h.uniform m hm.1 m' hm'.1 hg
  based g hg := by
    obtain ⟨hx', hT⟩ := Set.forall_mem_insert.mp hg
    have hne : g ≠ r.group := fun h => hx' (hpending g (.inr h))
    have hold := h.based g (Set.forall_mem_insert.mpr ⟨fun hx => hx' (hpending g (.inl hx)), hT⟩)
    rintro ⟨m, ⟨hm, -⟩, hmg, hneg⟩
    obtain ⟨b, hb, hbg, hbase⟩ := hold ⟨m, hm, hmg, hneg⟩
    refine ⟨b, ⟨hb, fun hkey => hne ?_⟩, hbg, hbase⟩
    rw [← hbg, Row.group_eq_of_key hkey]

/-- A set of some of the others is a sublist of them. -/
theorem exists_sublist {α : Type} {l : List α} {T : Set α} (hT : T ⊆ {y | y ∈ l}) :
    ∃ l' ∈ l.sublists, ∀ y, y ∈ l' ↔ y ∈ T := by
  classical
  refine ⟨l.filter fun y => y ∈ T, List.mem_sublists.mpr List.filter_sublist, fun y => ?_⟩
  rw [List.mem_filter, decide_eq_true_eq]
  exact and_iff_right_of_imp fun hy => hT hy

/-- The rows that a transaction and some of the others would leave. -/
theorem setOf_mergedRows {db : List Row} {l : List RuleTx} (hl : ∀ y, y ∈ l ↔ y ∈ T) :
    {m | m ∈ mergedRows ruleSystem db (x :: l)} = merged ruleSystem db (insert x T) := by
  ext m
  have hset : {y | y ∈ x :: l} = insert x T := by
    ext y
    simp [hl]
  show m ∈ mergedRows ruleSystem db (x :: l) ↔ _
  rw [mem_mergedRows, hset]

/-! ## The invariant -/

/-- **What one statement keeps**, whichever of the other transactions commit. -/
theorem leaves_exec {s : RuleState} {i : ℕ} {st : Stmt} {todo sts : List Stmt}
    {w : Option (Write Row Key)} (hx : s.opened[i]? = some x) (htodo : x.todo = st :: todo)
    (hok : TestsAnyway s (.exec i)) (hexec : st.exec (view ruleSystem s.db x) = some (w, sts))
    (hT : T ⊆ {y | y ∈ s.opened.eraseIdx i}) (hfree : ∀ w' ∈ w, ∀ y ∈ T, ruleSystem.keyOf w' ∉ y.touched)
    (h : Leaves (merged ruleSystem s.db (insert x T)) (insert x T)) :
    Leaves (w.elim (merged ruleSystem s.db (insert x T))
        (Write.apply ruleSystem (merged ruleSystem s.db (insert x T))))
      (insert (x.next ruleSystem (ruleSystem.lock st) w (sts ++ todo)) T) := by
  obtain ⟨l, hl, hmem⟩ := exists_sublist hT
  have hanyway := hok x hx l hl
  have hpending : ∀ g, g ∈ pending x ↔ g ∈ st.pending ∨ g ∈ todo.flatMap Stmt.pending := fun g => by
    rw [pending, htodo, List.flatMap_cons, List.mem_append]
  have hnext : ∀ g, g ∈ pending (x.next ruleSystem (ruleSystem.lock st) w (sts ++ todo)) ↔
      g ∈ sts.flatMap Stmt.pending ∨ g ∈ todo.flatMap Stmt.pending := fun g => by
    rw [pending, Versions.Tx.next, List.flatMap_append, List.mem_append]
  -- statements that only read leave what is pending
  have hread : w = none → (∀ g ∈ st.pending, g ∈ sts.flatMap Stmt.pending) →
      Leaves (w.elim (merged ruleSystem s.db (insert x T))
        (Write.apply ruleSystem (merged ruleSystem s.db (insert x T))))
      (insert (x.next ruleSystem (ruleSystem.lock st) w (sts ++ todo)) T) := by
    rintro rfl hst
    refine h.keep fun g hg => .inl ((hnext g).mpr ?_)
    exact ((hpending g).mp hg).imp_left (hst g)
  cases st with
  | lock l =>
    cases hexec
    exact hread rfl (List.forall_mem_nil _)
  | require | checkOp | dropType | dropRelation =>
    simp only [Stmt.exec] at hexec
    split at hexec <;> cases hexec
    exact hread rfl (List.forall_mem_nil _)
  | insert r =>
    simp only [Stmt.exec] at hexec
    split at hexec
    · cases hexec
      simp only [htodo, List.head?_cons] at hanyway
      refine h.put (fun m hm hg => ?_) fun g hg => (hnext g).mpr ?_
      · have hkeys : ∀ y ∈ T, r.key ∉ y.touched := fun y hy => by
          have hy := hfree _ rfl y hy
          rwa [System.keyOf, show ruleSystem.key = Row.key from rfl, written_key] at hy
        rcases written_cases (view ruleSystem s.db x) r with ⟨m₀, hm₀, hkey, hw⟩ | ⟨hnew, hw⟩
        · -- the row that is there keeps its operator, and is left
          rw [hw] at hg ⊢
          refine h.uniform m hm m₀ (mem_merged_of_view hm₀ fun y hy => ?_) hg
          show m₀.key ∉ y.touched
          rw [hkey]
          exact hkeys y hy
        · rw [hw] at hg ⊢
          rw [← setOf_mergedRows hmem] at hm
          exact usesOtherOp_eq_false_iff.mp (hanyway hnew) m hm hg
      · rcases hg with hg | rfl
        · exact ((hpending g).mp hg).imp_left fun hg => absurd hg List.not_mem_nil
        · refine .inl (List.mem_flatMap.mpr ⟨_, List.mem_singleton_self _, ?_⟩)
          simp [Stmt.pending, Row.group_eq_of_key (written_key _ r)]
    · cases hexec
  | checkBase g =>
    simp only [Stmt.exec] at hexec
    split at hexec
    · rename_i hbase
      cases hexec
      simp only [htodo, List.head?_cons] at hanyway
      refine h.keep fun g' hg' => ?_
      rcases (hpending g').mp hg' with hg' | hg'
      · obtain rfl := List.mem_singleton.mp hg'
        refine .inr fun hfree => ?_
        rw [← setOf_mergedRows hmem]
        exact groupHasBase_iff.mp (hanyway hbase fun y hy => hfree y ((hmem y).mp hy))
      · exact .inl ((hnext g').mpr (.inr hg'))
    · cases hexec
  | find sel =>
    cases hexec
    exact hread rfl (List.forall_mem_nil _)
  | delete ids groups =>
    cases ids with
    | nil =>
      cases hexec
      refine hread rfl fun g hg => ?_
      exact List.mem_flatMap.mpr ⟨.checkBase g, List.mem_map_of_mem hg, List.mem_singleton_self g⟩
    | cons id ids =>
      simp only [Stmt.exec] at hexec
      split at hexec
      · rename_i m _
        cases hexec
        refine h.drop fun g hg => (hnext g).mpr ?_
        have hsent : ([Stmt.delete ids (groups ++ [m.group])].flatMap Stmt.pending) = groups ++ [m.group] := by
          simp [Stmt.pending]
        rw [hsent, List.mem_append, List.mem_singleton]
        rcases hg with hg | rfl
        · exact ((hpending g).mp hg).imp_left .inl
        · exact .inl (.inr rfl)
      · cases hexec
        exact hread rfl fun g hg => by simpa [Stmt.pending] using hg

/-- The groups, whichever of the open transactions commit. -/
def groupInvariant : Invariant ruleSystem TestsAnyway where
  holds := Leaves
  start h := ⟨h.uniform, fun g hg => h.based g (Set.forall_mem_insert.mp hg).2⟩
  request r htodo h := by
    refine h.keep fun g hg => ?_
    rw [pending, htodo] at hg
    exact absurd hg List.not_mem_nil
  exec hx htodo hok hexec hT hfree h := leaves_exec hx htodo hok hexec hT hfree h
  commit htodo h := by
    refine ⟨h.uniform, fun g hg => h.based g (Set.forall_mem_insert.mpr ⟨?_, hg⟩)⟩
    rw [pending, htodo]
    exact List.not_mem_nil

instance (s : RuleState) (e : Event Request) : Decidable (TestsAnyway s e) := by
  cases e with
  | exec i =>
    refine @Option.decidableForallMem _ _ (fun x => ?_) s.opened[i]?
    refine @List.decidableBAll _ _ (fun T => ?_) (s.opened.eraseIdx i).sublists
    split <;> infer_instance
  | _ => exact .isTrue trivial

theorem leaves_empty_iff {rows : List Row} : Leaves {m | m ∈ rows} ∅ ↔ Grouped rows :=
  ⟨fun h => ⟨h.uniform, fun g => h.based g (by simp)⟩, fun h => ⟨h.uniform, fun g _ => h.based g⟩⟩

theorem grouped_nil : Grouped [] := ⟨inOrder_nil.uniform, inOrder_nil.based⟩

/-- **The groups stay in order along runs whose tests pass anyway**: the rules of a group carry one
operator, and a group with a negated rule has one that is not. -/
theorem grouped_along {es : List (Event Request)} {s : RuleState}
    (hok : Along (step ruleSystem) TestsAnyway (State.init []) es)
    (hrun : run (step ruleSystem) (State.init []) es = some s) : Grouped s.db := by
  have hinit : groupInvariant.Holds (State.init []) := Invariant.holds_init (leaves_empty_iff.mpr grouped_nil)
  exact leaves_empty_iff.mp (Invariant.run hinit hok hrun).committed

/-! ## One transaction at a time -/

/-- The statement inserts a rule. -/
def Stmt.isInsert : Stmt → Bool
  | .insert _ => true
  | _ => false

/-- An insert comes next only after its operator test, on the rows that the transaction still sees. -/
structure Ready (db : List Row) (x : RuleTx) : Prop where
  head : ∀ r, x.todo.head? = some (.insert r) → usesOtherOp (view ruleSystem db x) r = false
  tail : ∀ st ∈ x.todo.tail, st.isInsert = false

/-- No script has an insert of its own. -/
theorem isInsert_script (r : Request) : ∀ st ∈ script r, st.isInsert = false := by
  have hadd : ∀ r : Row, ∀ st ∈ modelAddRule r, st.isInsert = false := by
    intro r st hst
    unfold modelAddRule at hst
    split at hst <;> simp only [List.mem_cons, List.not_mem_nil, or_false] at hst
    · rcases hst with rfl | rfl | rfl <;> rfl
    · rcases hst with rfl | rfl <;> rfl
  have htype : ∀ storeId objectType, ∀ st ∈ modelRemoveType storeId objectType, st.isInsert = false := by
    intro storeId objectType st hst
    simp only [modelRemoveType, List.mem_cons, List.not_mem_nil, or_false] at hst
    rcases hst with rfl | rfl | rfl <;> rfl
  intro st hst
  cases r with
  | addRule r => exact hadd r st hst
  | removeRule storeId id =>
    obtain rfl := List.mem_singleton.mp hst
    rfl
  | removeRules storeId objectType relation =>
    obtain rfl := List.mem_singleton.mp hst
    rfl
  | removeType storeId objectType => exact htype storeId objectType st hst
  | applyModel storeId modelLocks staleTypes rules staleRelations =>
    simp only [script, applyModel, List.mem_cons, List.mem_append, List.mem_map, List.mem_flatMap] at hst
    rcases hst with (((rfl | ⟨k, -, rfl⟩) | ⟨t, -, hst⟩) | rfl | ⟨r, -, hst⟩) | ⟨r, -, rfl⟩
    · rfl
    · rfl
    · exact htype storeId t st hst
    · rfl
    · exact hadd r st hst
    · rfl

/-- A statement sends an insert only as the operator test of its rule. -/
theorem exec_sent {st : Stmt} {rows : List Row} {w : Option (Write Row Key)} {sts : List Stmt}
    (h : st.exec rows = some (w, sts)) : (∀ st' ∈ sts, st'.isInsert = false) ∨
      ∃ r, sts = [.insert r] ∧ w = none ∧ usesOtherOp rows r = false := by
  cases st with
  | checkOp r =>
    simp only [Stmt.exec] at h
    split at h
    · cases h
    · rename_i hop
      cases h
      exact .inr ⟨r, rfl, rfl, Bool.eq_false_iff.mpr hop⟩
  | delete ids groups =>
    refine .inl fun st' hst' => ?_
    cases ids with
    | nil =>
      cases h
      obtain ⟨g, -, rfl⟩ := List.mem_map.mp hst'
      rfl
    | cons id ids =>
      simp only [Stmt.exec] at h
      split at h <;> cases h <;> obtain rfl := List.mem_singleton.mp hst' <;> rfl
  | find sel =>
    cases h
    refine .inl fun st' hst' => ?_
    obtain rfl := List.mem_singleton.mp hst'
    rfl
  | insert r =>
    simp only [Stmt.exec] at h
    split at h
    · cases h
      refine .inl fun st' hst' => ?_
      obtain rfl := List.mem_singleton.mp hst'
      rfl
    · cases h
  | lock l =>
    cases h
    exact .inl (List.forall_mem_nil _)
  -- the other tests send nothing
  | require | checkBase | dropType | dropRelation =>
    simp only [Stmt.exec] at h
    split at h <;> cases h
    exact .inl (List.forall_mem_nil _)

theorem Ready.exec {db : List Row} {st : Stmt} {todo sts : List Stmt} {w : Option (Write Row Key)}
    (h : Ready db x) (htodo : x.todo = st :: todo) (hexec : st.exec (view ruleSystem db x) = some (w, sts)) :
    Ready db (x.next ruleSystem (ruleSystem.lock st) w (sts ++ todo)) := by
  have htail : ∀ st' ∈ todo, st'.isInsert = false := fun st' hst' => h.tail st' (by rwa [htodo])
  rcases exec_sent hexec with hsent | ⟨r, rfl, rfl, hop⟩
  · have hnone : ∀ st' ∈ sts ++ todo, st'.isInsert = false := fun st' hst' =>
      (List.mem_append.mp hst').elim (hsent st') (htail st')
    refine ⟨fun r hr => ?_, fun st' hst' => hnone st' (List.mem_of_mem_tail hst')⟩
    exact absurd (hnone _ (List.mem_of_mem_head? hr)) (by simp [Stmt.isInsert])
  · refine ⟨fun r' hr' => ?_, htail⟩
    obtain rfl : r = r' := by simpa [Versions.Tx.next] using hr'
    exact hop

/-- **Transactions that run one at a time**: every test passes anyway. -/
theorem testsAnyway_serial {es : List (Event Request)}
    (hserial : Along (step ruleSystem) (fun s _ => s.opened.length ≤ 1) (State.init []) es) :
    Along (step ruleSystem) TestsAnyway (State.init []) es := by
  -- no other transaction is open, so none can commit in between
  have hothers : ∀ {s : RuleState} {i : ℕ} {x : RuleTx}, s.opened.length ≤ 1 → s.opened[i]? = some x →
      s.opened.eraseIdx i = [] := by
    intro s i x hlen hx
    obtain ⟨hi, -⟩ := List.getElem?_eq_some_iff.mp hx
    refine List.length_eq_zero_iff.mp ?_
    rw [List.length_eraseIdx_of_lt hi]
    omega
  have hset : ∀ {s : RuleState} {i : ℕ} {x' : RuleTx}, (∀ x ∈ s.opened, Ready s.db x) → Ready s.db x' →
      ∀ y ∈ s.opened.set i x', Ready s.db y := by
    intro s i x' hs hx' y hy
    rcases List.mem_or_eq_of_mem_set hy with hy | rfl
    · exact hs y hy
    · exact hx'
  -- every statement that writes a rule has just passed the test of its group
  refine Along.of_inv (I := fun s => ∀ x ∈ s.opened, Ready s.db x) ?_ ?_ hserial (by simp [State.init])
  · intro s e s' hs hlen hstep
    cases e with
    | start =>
      cases hstep
      intro x hx
      rcases List.mem_append.mp hx with hx | hx
      · exact hs x hx
      · rw [List.mem_singleton.mp hx]
        exact ⟨by rintro _ ⟨⟩, List.forall_mem_nil _⟩
    | request i r =>
      obtain ⟨x, -, -, rfl⟩ := step_request hstep
      refine hset hs ⟨fun r' hr' => ?_, fun st hst => isInsert_script r st (List.mem_of_mem_tail hst)⟩
      exact absurd (isInsert_script r _ (List.mem_of_mem_head? hr')) (by simp [Stmt.isInsert])
    | exec i =>
      obtain ⟨x, st, todo, w, sts, hx, htodo, hexec, -, rfl⟩ := step_exec hstep
      exact hset hs ((hs x (List.mem_of_getElem? hx)).exec htodo hexec)
    | commit i =>
      obtain ⟨x, hx, -, rfl⟩ := step_commit hstep
      rw [hothers hlen hx]
      exact List.forall_mem_nil _
    | abort i =>
      rw [step_abort hstep]
      exact fun x hx => hs x (List.mem_of_mem_eraseIdx hx)
  · intro s e hs hlen
    cases e with
    | exec i =>
      intro x hx T hT
      rw [hothers hlen hx] at hT
      obtain rfl : T = [] := by simpa using hT
      split
      · rename_i r hr
        exact fun _ => (hs x (List.mem_of_getElem? hx)).head r hr
      · exact fun hbase _ => hbase
      · trivial
    | _ => trivial

/-- **The groups stay in order while transactions run one at a time.** -/
theorem grouped_serial {es : List (Event Request)} {s : RuleState}
    (hserial : Along (step ruleSystem) (fun s _ => s.opened.length ≤ 1) (State.init []) es)
    (hrun : run (step ruleSystem) (State.init []) es = some s) : Grouped s.db := by
  have hinit : groupInvariant.Holds (State.init []) := Invariant.holds_init (leaves_empty_iff.mpr grouped_nil)
  exact leaves_empty_iff.mp (Invariant.run hinit (testsAnyway_serial hserial) hrun).committed

/-! ## Runs -/

/-- The base of an exclusion group. -/
def baseRow : Row := ⟨1, 1, ⟨1, 1, .direct, 1, .exclusion, false⟩, false⟩

/-- A ban in the same group. -/
def banRow : Row := ⟨2, 1, ⟨1, 1, .computed 2, 1, .exclusion, true⟩, false⟩

/-- A rule of the same relation in another group. -/
def otherRow : Row := ⟨3, 1, ⟨1, 1, .computed 3, 2, .and, false⟩, false⟩

/-- A rule that is added by the first open transaction, and committed. -/
def added (r : Row) : List (Event Request) :=
  [.start, .request 0 (.addRule r), .exec 0, .exec 0, .exec 0, .exec 0, .commit 0]

/-- A ban is added while its base is removed: each transaction looks at the group before the other one
commits. -/
def banBesideRemoval : List (Event Request) :=
  added baseRow ++ [Event.start, .start, .request 0 (.removeRule 1 1), .request 1 (.addRule banRow), .exec 0, .exec 0,
    .exec 0, .exec 1, .exec 1, .exec 1, .exec 1, .exec 0, .commit 0, .commit 0]

/-- Two transactions open a group under different operators. -/
def twoOperators : List (Event Request) :=
  [.start, .start, .request 0 (.addRule otherRow),
    .request 1 (.addRule ⟨4, 1, ⟨1, 1, .direct, 2, .or, false⟩, false⟩), .exec 0, .exec 0, .exec 0, .exec 0,
    .exec 1, .exec 1, .exec 1, .exec 1, .commit 0, .commit 0]

/-- A base is added to one group while another transaction edits another group of the relation. -/
def otherGroup : List (Event Request) :=
  [.start, .start, .request 0 (.addRule baseRow), .request 1 (.addRule otherRow), .exec 0, .exec 0, .exec 1,
    .exec 1, .exec 0, .exec 1, .exec 0, .exec 1, .commit 1, .request 0 (.addRule banRow), .exec 0, .exec 0,
    .exec 0, .exec 0, .commit 0]

theorem grouped_along_otherGroup : Grouped [otherRow, baseRow, banRow] :=
  @grouped_along otherGroup ⟨[otherRow, baseRow, banRow], []⟩ (by decide +kernel) (by decide +kernel)

/-- **Concurrent edits break groups**: a ban is left without a base, and a group has two operators. -/
theorem concurrent_edits_break_groups :
    (∃ s, run (step ruleSystem) (State.init []) banBesideRemoval = some s ∧ ¬ Grouped s.db) ∧
      ∃ s, run (step ruleSystem) (State.init []) twoOperators = some s ∧ ¬ Grouped s.db := by
  refine ⟨⟨⟨[banRow], []⟩, by decide +kernel, fun h => ?_⟩,
    ⟨⟨[otherRow, ⟨4, 1, ⟨1, 1, .direct, 2, .or, false⟩, false⟩], []⟩, by decide +kernel, fun h => ?_⟩⟩
  · obtain ⟨b, hb, -, hbase⟩ := h.based ⟨1, 1, 1, 1⟩ ⟨banRow, List.mem_singleton_self _, rfl, rfl⟩
    obtain rfl := List.mem_singleton.mp hb
    cases hbase
  · have hop := h.uniform otherRow (by simp) ⟨4, 1, ⟨1, 1, .direct, 2, .or, false⟩, false⟩ (by simp) rfl
    cases hop

end PgAuthz.RuleGroups
