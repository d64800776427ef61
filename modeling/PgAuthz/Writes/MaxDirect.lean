import Mathlib
import PgAuthz.Writes.Paths

/-!
# The cap on direct assignments is exact

A row of a capped relation is inserted after its guard has counted the others under the lock of the
object, which the transaction holds until it commits. The other transactions can then only delete
rows of the object, so the count can only fall: what a transaction was admitted with still fits when
it commits.

## Main definitions

* `WellGuarded`: a count runs under the lock of the object
* `CapTx`: what an open transaction has been admitted with
* `WritesUntil`: the event is a call that writes tuples, at a statement time before a given time

## Main results

* `CapTx.commit`: a commit leaves the count within the cap, or adds no holder
* `max_direct_exact`: so does every commit in every run, and a row that is active can be written again
-/

namespace PgAuthz.Paths

open Scripts Transition

/-! ## Counts under locks -/

/-- Every count to come runs under the lock of its object, and is not one of a wildcard. -/
def WellGuarded : List Lock → List Stmt → Prop
  | _, [] => True
  | held, st :: sts =>
    (∀ op, st = .capCount op → (pairOf op.key).lock ∈ held ∧ isWildcard op.key = false) ∧
      WellGuarded (held ++ st.lock?.toList) sts

theorem WellGuarded.mono {held held' : List Lock} (hsub : held ⊆ held') {sts : List Stmt}
    (h : WellGuarded held sts) : WellGuarded held' sts := by
  induction sts generalizing held held' with
  | nil => trivial
  | cons st sts ih =>
    refine ⟨fun op hop => ⟨hsub (h.1 op hop).1, (h.1 op hop).2⟩, ih ?_ h.2⟩
    exact List.append_subset.mpr ⟨List.subset_append_of_subset_left _ hsub,
      List.subset_append_right _ _⟩

/-- Statements that need no check come before others. -/
theorem wellGuarded_append {held : List Lock} {sts sts' : List Stmt}
    (hentry : ∀ st ∈ sts, st.isEntry = true) (h : WellGuarded held sts') :
    WellGuarded held (sts ++ sts') := by
  induction sts generalizing held with
  | nil => exact h
  | cons st sts ih =>
    refine ⟨fun op hop => ?_, ih (fun st' hst' => hentry st' (List.mem_cons_of_mem st hst')) ?_⟩
    · have := hentry st List.mem_cons_self
      rw [hop] at this
      cases this
    · exact h.mono (List.subset_append_left _ _)

/-! ## Views of the rows -/

section Views

variable {d : Db} {chs : List DbChange}

/-- Changes of rows leave the constraints. -/
theorem constraints_foldl (hrows : ∀ ch ∈ chs, ∃ k new, ch = DbChange.row k new) :
    (chs.foldl Db.apply d).constraints = d.constraints := by
  induction chs generalizing d with
  | nil => rfl
  | cons ch chs ih =>
    obtain ⟨k, new, rfl⟩ := hrows ch List.mem_cons_self
    rw [List.foldl_cons, ih fun ch' hch' => hrows ch' (List.mem_cons_of_mem _ hch')]
    cases new <;> rfl

theorem maxDirect_foldl (hrows : ∀ ch ∈ chs, ∃ k new, ch = DbChange.row k new) (κ : RelationKey) :
    (chs.foldl Db.apply d).maxDirect κ = d.maxDirect κ := by
  rw [Db.maxDirect, Db.bounds, constraints_foldl hrows]
  rfl

/-- A row that changes have not put is active only if it was before them. -/
theorem active_of_not_put {k : RowKey} {now : ℤ} (hput : ∀ u, lastRow k chs ≠ some (some u))
    (h : (chs.foldl Db.apply d).active now k = true) : d.active now k = true := by
  rw [Db.active, lookup_foldl_apply] at h
  cases hlast : lastRow k chs with
  | none =>
    rw [hlast] at h
    exact h
  | some new =>
    cases new with
    | none =>
      rw [hlast] at h
      cases h
    | some u => exact absurd hlast (hput u)

/-- Changes under those of a transaction: a row that they have not put is active in its view only if
it was there without them. -/
theorem active_beside {chs' : List DbChange} {k : RowKey} {now : ℤ}
    (hput : ∀ u, lastRow k chs ≠ some (some u))
    (h : (chs'.foldl Db.apply (chs.foldl Db.apply d)).active now k = true) :
    (chs'.foldl Db.apply d).active now k = true := by
  rw [Db.active, lookup_foldl_apply] at h ⊢
  cases hlast : lastRow k chs' with
  | some new =>
    rw [hlast] at h
    exact h
  | none =>
    rw [hlast] at h
    exact active_of_not_put hput h

end Views

/-! ## The invariant -/

/-- **What an open transaction has been admitted with**: it holds the lock of every object of a capped
relation that it has put a row of, and the count fits within the cap at the time of one of its calls;
the same holds of a row that the guard has let pass. -/
structure CapTx (t : ℤ) (d : Db) (x : PathTx) : Prop where
  times : ∀ r ∈ x.requests, r.now ≤ t
  rows : ∀ ch ∈ x.changes, ∃ k new, ch = DbChange.row k new
  stmts : ∀ st ∈ x.todo, st.isTuple = true
  guarded : WellGuarded x.held x.todo
  -- a row is put right after its guard
  pending : ∀ st ∈ x.todo.tail, ∀ op, st ≠ .putRow op
  admitted : ∀ k u m, DbChange.row k (some u) ∈ x.changes → d.maxDirect (pairOf k).key = some m →
    isWildcard k = false ∧ (pairOf k).lock ∈ x.held ∧
      ∃ r ∈ x.requests, (holders (pathSystem.view d x) (pairOf k) r.now).card ≤ m
  ready : ∀ op r rs m, x.todo.head? = some (.putRow op) → x.requests = r :: rs →
    d.maxDirect (pairOf op.key).key = some m →
    isWildcard op.key = false ∧ (pairOf op.key).lock ∈ x.held ∧
      ((holders (pathSystem.view d x) (pairOf op.key) r.now).erase op.key).card < m

/-- The event is a call that writes tuples, with a statement time that is not after `t`. -/
def WritesUntil (t : ℤ) : Event Request → Prop
  | .request _ r => r.call.isTupleCall = true ∧ r.now ≤ t
  | _ => True

section CapTx

variable {t : ℤ} {d : Db} {x : PathTx}

theorem view_next (l : Option Lock) (chs : List DbChange) (todo : List Stmt) :
    pathSystem.view d (x.next l chs todo) = chs.foldl Db.apply (pathSystem.view d x) :=
  List.foldl_append

theorem CapTx.maxDirect_view (h : CapTx t d x) (κ : RelationKey) :
    (pathSystem.view d x).maxDirect κ = d.maxDirect κ :=
  maxDirect_foldl h.rows κ

theorem capTx_init : CapTx t d Tx.init where
  times := by simp [Tx.init]
  rows := by simp [Tx.init]
  stmts := by simp [Tx.init]
  guarded := trivial
  pending := by simp [Tx.init]
  admitted := by simp [Tx.init]
  ready := by simp [Tx.init]

/-- A transaction sends a call that writes tuples. -/
theorem CapTx.send (h : CapTx t d x) {r : Request} (hr : r.call.isTupleCall = true)
    (ht : r.now ≤ t) : CapTx t d (x.send pathSystem r) where
  times := by
    intro r' hr'
    rcases List.mem_cons.mp hr' with rfl | hr'
    · exact ht
    · exact h.times r' hr'
  rows := h.rows
  stmts := fun st hst => Stmt.isTuple_of_isEntry (isEntry_script hr st hst)
  guarded := by
    have := wellGuarded_append (isEntry_script hr) (show WellGuarded x.held [] from trivial)
    rwa [List.append_nil] at this
  pending := by
    rintro st hst op rfl
    have := isEntry_script hr _ (List.mem_of_mem_tail hst)
    cases this
  admitted := by
    intro k u m hk hm
    obtain ⟨hwild, hlock, r', hr', hcard⟩ := h.admitted k u m hk hm
    exact ⟨hwild, hlock, r', List.mem_cons_of_mem r hr', hcard⟩
  ready := by
    intro op r' rs m hhead
    have := isEntry_script hr _ (List.mem_of_head? hhead)
    cases this

/-- A statement that puts no row: the transaction goes on with the statements that it sends. -/
theorem CapTx.next (h : CapTx t d x) {st : Stmt} {todo sts : List Stmt} {chs : List DbChange}
    (htodo : x.todo = st :: todo) (hstmts : ∀ st' ∈ sts, st'.isTuple = true)
    (hguarded : WellGuarded (x.held ++ st.lock?.toList) (sts ++ todo))
    (hpending : ∀ st' ∈ sts.tail, ∀ op, st' ≠ .putRow op)
    (hdel : ∀ ch ∈ chs, ∃ k, ch = DbChange.row k none)
    (hready : ∀ op r rs m, sts.head? = some (.putRow op) → x.requests = r :: rs →
      d.maxDirect (pairOf op.key).key = some m →
      isWildcard op.key = false ∧ (pairOf op.key).lock ∈ x.held ∧
        ((holders (pathSystem.view d x) (pairOf op.key) r.now).erase op.key).card < m)
    (hchs : chs ≠ [] → sts = []) :
    CapTx t d (x.next st.lock? chs (sts ++ todo)) := by
  have hrest : ∀ st' ∈ todo, ∀ op, st' ≠ .putRow op := by
    have := h.pending
    rwa [htodo] at this
  -- deletes leave no holder that was not there before
  have hsub : ∀ p now, holders (pathSystem.view d (x.next st.lock? chs (sts ++ todo))) p now ⊆
      holders (pathSystem.view d x) p now := by
    intro p now
    rw [view_next]
    refine holders_subset fun k _ hact => active_of_not_put (fun u hu => ?_) hact
    obtain ⟨k', hk'⟩ := hdel _ (mem_of_lastRow hu)
    cases hk'
  refine ⟨h.times, ?_, ?_, hguarded, ?_, ?_, ?_⟩
  · intro ch hch
    rcases List.mem_append.mp hch with hch | hch
    · exact h.rows ch hch
    · obtain ⟨k, rfl⟩ := hdel ch hch
      exact ⟨k, none, rfl⟩
  · intro st' hst'
    rcases List.mem_append.mp hst' with hst' | hst'
    · exact hstmts st' hst'
    · exact h.stmts st' (htodo ▸ List.mem_cons_of_mem st hst')
  · intro st' hst'
    rcases sts with _ | ⟨st₁, sts⟩
    · exact hrest st' (List.mem_of_mem_tail hst')
    · rcases List.mem_append.mp hst' with hst' | hst'
      · exact hpending st' hst'
      · exact hrest st' hst'
  · intro k u m hk hm
    have hk : DbChange.row k (some u) ∈ x.changes := by
      rcases List.mem_append.mp hk with hk | hk
      · exact hk
      · obtain ⟨k', hk'⟩ := hdel _ hk
        cases hk'
    obtain ⟨hwild, hlock, r, hr, hcard⟩ := h.admitted k u m hk hm
    exact ⟨hwild, List.mem_append_left _ hlock, r, hr,
      (Finset.card_le_card (hsub (pairOf k) r.now)).trans hcard⟩
  · intro op r rs m hhead hr hm
    rcases sts with _ | ⟨st₁, sts⟩
    · exact absurd rfl (hrest _ (List.mem_of_head? hhead) op)
    · obtain rfl : chs = [] := by
        by_contra hne
        cases hchs hne
      obtain ⟨hwild, hlock, hcard⟩ := hready op r rs m hhead hr hm
      refine ⟨hwild, List.mem_append_left _ hlock, lt_of_le_of_lt (Finset.card_le_card ?_) hcard⟩
      exact Finset.erase_subset_erase _ (hsub (pairOf op.key) r.now)

/-- The row that the guard has let pass is put. -/
theorem CapTx.put (h : CapTx t d x) {op : TupleOp} {todo : List Stmt} {r : Request}
    {rs : List Request} (htodo : x.todo = .putRow op :: todo) (hreq : x.requests = r :: rs) :
    CapTx t d (x.next none (rowChange (pathSystem.view d x) r.now op).toList todo) := by
  have hrest : ∀ st' ∈ todo, ∀ op, st' ≠ .putRow op := by
    have := h.pending
    rwa [htodo] at this
  -- the change is about the row of the statement
  have hkey : ∀ ch ∈ (rowChange (pathSystem.view d x) r.now op).toList, ∃ new,
      ch = DbChange.row op.key new := by
    intro ch hch
    obtain ⟨e, -, rfl⟩ := Option.map_eq_some_iff.mp (Option.mem_toList.mp hch)
    exact ⟨e.2, rfl⟩
  have hother : ∀ p now, holders (pathSystem.view d
      (x.next none (rowChange (pathSystem.view d x) r.now op).toList todo)) p now ⊆
      insert op.key (holders (pathSystem.view d x) p now) := by
    intro p now k hk
    rw [view_next] at hk
    obtain ⟨hp, hact⟩ := mem_holders.mp hk
    by_cases hop : k = op.key
    · exact hop ▸ Finset.mem_insert_self _ _
    · refine Finset.mem_insert_of_mem (mem_holders.mpr ⟨hp, active_of_not_put (fun u hu => ?_) hact⟩)
      obtain ⟨new, hnew⟩ := hkey _ (mem_of_lastRow hu)
      cases hnew
      exact hop rfl
  refine ⟨h.times, ?_, ?_, ?_, fun st' hst' => hrest st' (List.mem_of_mem_tail hst'), ?_, ?_⟩
  · intro ch hch
    rcases List.mem_append.mp hch with hch | hch
    · exact h.rows ch hch
    · obtain ⟨new, rfl⟩ := hkey ch hch
      exact ⟨op.key, new, rfl⟩
  · exact fun st' hst' => h.stmts st' (htodo ▸ List.mem_cons_of_mem _ hst')
  · have := h.guarded
    rw [htodo] at this
    exact this.2
  · intro k u m hk hm
    rw [show (x.next none (rowChange (pathSystem.view d x) r.now op).toList todo).held = x.held
      from List.append_nil x.held]
    by_cases hp : pairOf k = pairOf op.key
    · -- the count without the row leaves a slot for it
      obtain ⟨hwild, hlock, hcard⟩ :=
        h.ready op r rs m (by rw [htodo]; rfl) hreq (hp ▸ hm)
      have hwild : isWildcard k = false := by
        rcases List.mem_append.mp hk with hk | hk
        · exact (h.admitted k u m hk hm).1
        · obtain ⟨new, hnew⟩ := hkey _ hk
          cases hnew
          exact hwild
      refine ⟨hwild, hp ▸ hlock, r, hreq ▸ List.mem_cons_self, ?_⟩
      rw [hp]
      calc (holders (pathSystem.view d
              (x.next none (rowChange (pathSystem.view d x) r.now op).toList todo))
              (pairOf op.key) r.now).card
          ≤ (insert op.key ((holders (pathSystem.view d x) (pairOf op.key) r.now).erase
              op.key)).card := by
            refine Finset.card_le_card ((hother (pairOf op.key) r.now).trans ?_)
            exact Finset.insert_subset (Finset.mem_insert_self _ _)
              (Finset.insert_erase_subset _ _)
        _ ≤ _ + 1 := Finset.card_insert_le _ _
        _ ≤ m := hcard
    · have hk : DbChange.row k (some u) ∈ x.changes := by
        rcases List.mem_append.mp hk with hk | hk
        · exact hk
        · obtain ⟨new, hnew⟩ := hkey _ hk
          cases hnew
          exact absurd rfl hp
      obtain ⟨hwild, hlock, r', hr', hcard⟩ := h.admitted k u m hk hm
      refine ⟨hwild, hlock, r', hr', (Finset.card_le_card fun k' hk' => ?_).trans hcard⟩
      rcases Finset.mem_insert.mp (hother _ _ hk') with rfl | hmem
      · exact absurd (mem_holders.mp hk').1.symm hp
      · exact hmem
  · intro op' r' rs' m hhead
    exact absurd rfl (hrest _ (List.mem_of_head? hhead) op')

/-- **A statement of an open transaction.** -/
theorem CapTx.exec (h : CapTx t d x) {st : Stmt} {todo : List Stmt} {r : Request}
    {rs : List Request} {chs : List DbChange} {sts : List Stmt} (htodo : x.todo = st :: todo)
    (hreq : x.requests = r :: rs)
    (hexec : st.exec r.now r.store (pathSystem.view d x) = some (chs, sts)) :
    CapTx t d (x.next st.lock? chs (sts ++ todo)) := by
  have hguarded := h.guarded
  rw [htodo] at hguarded
  rcases exec_cases (h.stmts st (htodo ▸ List.mem_cons_self)) hexec with
    ⟨rfl, hentry⟩ | ⟨op, rfl, rfl, hinsert⟩ | ⟨op, rfl, rfl, hguard⟩ |
    ⟨op, rfl, rfl, rfl, hcount⟩ | ⟨op, rfl, rfl, rfl⟩ | ⟨rfl, hdel⟩
  · refine h.next htodo (fun st' hst' => Stmt.isTuple_of_isEntry (hentry st' hst'))
      (wellGuarded_append hentry hguarded.2) ?_ (by simp) ?_ (by simp)
    · rintro st' hst' op rfl
      have := hentry _ (List.mem_of_mem_tail hst')
      cases this
    · intro op r' rs' m hhead
      have := hentry _ (List.mem_of_head? hhead)
      cases this
  · rcases hinsert with ⟨-, rfl⟩ | ⟨-, rfl⟩
    · refine h.next htodo (by simp [Stmt.isTuple]) ?_ (by simp) (by simp) (by simp) (by simp)
      exact ⟨by simp, hguarded.2.mono (List.subset_append_left _ _)⟩
    · refine h.next htodo (by simp [Stmt.isTuple, Stmt.isEntry]) ?_ (by simp) (by simp) (by simp)
        (by simp)
      refine ⟨by simp, by simp, hguarded.2.mono ?_⟩
      exact List.subset_append_of_subset_left _ (List.subset_append_left _ _)
  · rcases hguard with ⟨hcap, rfl⟩ | ⟨hwild, rfl⟩
    · refine h.next htodo (by simp [Stmt.isTuple]) ?_ (by simp) (by simp) ?_ (by simp)
      · exact ⟨by simp, hguarded.2.mono (List.subset_append_left _ _)⟩
      · intro op' r' rs' m hhead _ hm
        cases hhead
        rw [h.maxDirect_view, hm] at hcap
        cases hcap
    · refine h.next htodo (by simp [Stmt.isTuple, Stmt.isEntry]) ?_ (by simp) (by simp) (by simp)
        (by simp)
      refine ⟨by simp, fun op' hop' => ?_, hguarded.2.mono ?_⟩
      · cases hop'
        exact ⟨List.mem_append_right _ (List.mem_singleton_self _), hwild⟩
      · exact List.subset_append_of_subset_left _ (List.subset_append_left _ _)
  · obtain ⟨hlock, hwild⟩ := hguarded.1 op rfl
    refine h.next htodo (by simp [Stmt.isTuple]) ?_ (by simp) (by simp) ?_ (by simp)
    · exact ⟨by simp, hguarded.2.mono (List.subset_append_left _ _)⟩
    · intro op' r' rs' m hhead hreq' hm
      cases hhead
      cases hreq.symm.trans hreq'
      exact ⟨hwild, hlock, hcount m (h.maxDirect_view _ ▸ hm)⟩
  · exact h.put htodo hreq
  · exact h.next htodo (by simp) hguarded.2 (by simp) hdel (by simp) fun _ => rfl

/-- **Beside a commit**: what another transaction commits takes no slot of an object that the
transaction has locked. -/
theorem CapTx.beside {y : PathTx} (hx : CapTx t d x) (hy : CapTx t d y)
    (hc : pathSystem.Compatible x y) : CapTx t (pathSystem.view d x) y := by
  -- the other transaction has put no row of a capped pair that is locked
  have hfree : ∀ p m, d.maxDirect p.key = some m → p.lock ∈ y.held → ∀ now,
      holders (pathSystem.view (pathSystem.view d x) y) p now ⊆ holders (pathSystem.view d y) p now := by
    intro p m hm hlock now
    refine holders_subset fun k hk hact => active_beside (fun u hu => ?_) hact
    subst hk
    have hheld := (hx.admitted k u m (mem_of_lastRow hu) hm).2.1
    have := hc _ hheld _ hlock
    simp [pathSystem, Pair.lock, Lock.conflicts] at this
  refine ⟨hy.times, hy.rows, hy.stmts, hy.guarded, hy.pending, ?_, ?_⟩
  · intro k u m hk hm
    rw [hx.maxDirect_view] at hm
    obtain ⟨hwild, hlock, r, hr, hcard⟩ := hy.admitted k u m hk hm
    exact ⟨hwild, hlock, r, hr, (Finset.card_le_card (hfree _ m hm hlock r.now)).trans hcard⟩
  · intro op r rs m hhead hreq hm
    rw [hx.maxDirect_view] at hm
    obtain ⟨hwild, hlock, hcard⟩ := hy.ready op r rs m hhead hreq hm
    refine ⟨hwild, hlock, lt_of_le_of_lt (Finset.card_le_card ?_) hcard⟩
    exact Finset.erase_subset_erase _ (hfree _ m hm hlock r.now)

/-- **A commit leaves the count within the cap, or adds no holder.** -/
theorem CapTx.commit (h : CapTx t d x) {p : Pair} {m : ℕ} (hm : d.maxDirect p.key = some m) :
    (holders (pathSystem.view d x) p t).card ≤ m ∨
      holders (pathSystem.view d x) p t ⊆ holders d p t := by
  by_cases hput : ∃ k u, pairOf k = p ∧ DbChange.row k (some u) ∈ x.changes
  · obtain ⟨k, u, rfl, hk⟩ := hput
    obtain ⟨-, -, r, hr, hcard⟩ := h.admitted k u m hk hm
    exact .inl ((Finset.card_le_card (holders_anti _ _ (h.times r hr))).trans hcard)
  · refine .inr (holders_subset fun k hk hact => active_of_not_put (fun u hu => ?_) hact)
    exact hput ⟨k, u, hk, mem_of_lastRow hu⟩

end CapTx

/-! ## Runs -/

/-- The committed tables keep the constraints; they have no wildcard on a capped relation that was
not there at first, and no more holders than the cap allows or there were at first. -/
structure CapDb (t : ℤ) (d₀ d : Db) : Prop where
  constraints : d.constraints = d₀.constraints
  wildcards : ∀ k m, d₀.maxDirect (pairOf k).key = some m → isWildcard k = true → ∀ now,
    d.active now k = true → d₀.active now k = true
  counts : ∀ p m, d₀.maxDirect p.key = some m →
    (holders d p t).card ≤ max m (holders d₀ p t).card

theorem CapDb.maxDirect {t : ℤ} {d₀ d : Db} (h : CapDb t d₀ d) (κ : RelationKey) :
    d.maxDirect κ = d₀.maxDirect κ := by
  rw [Db.maxDirect, Db.bounds, h.constraints]
  rfl

/-- A wildcard on a capped relation in the view of a transaction was there at first. -/
theorem CapDb.wildcards_view {t : ℤ} {d₀ d : Db} {x : PathTx} (h : CapDb t d₀ d)
    (hx : CapTx t d x) {k : RowKey} {m : ℕ} (hm : d₀.maxDirect (pairOf k).key = some m)
    (hk : isWildcard k = true) {now : ℤ} (hact : (pathSystem.view d x).active now k = true) :
    d₀.active now k = true := by
  refine h.wildcards k m hm hk now (active_of_not_put (fun u hu => ?_) hact)
  have hwild := (hx.admitted k u m (mem_of_lastRow hu) (h.maxDirect _ ▸ hm)).1
  rw [hk] at hwild
  cases hwild

/-- The invariant of runs of calls that write tuples. -/
def capInvariant (t : ℤ) (d₀ : Db) : Invariant pathSystem fun _ e => WritesUntil t e where
  db := CapDb t d₀
  tx := CapTx t
  start _ := capTx_init
  request _ _ h _ hok := h.send hok.1 hok.2
  exec _ _ h htodo hreq _ hexec := h.exec htodo hreq hexec
  commit := by
    intro s i x _ hdb h _ _
    refine ⟨(constraints_foldl h.rows).trans hdb.constraints, ?_, ?_⟩
    · intro k m hm hk now hact
      exact hdb.wildcards_view h hm hk hact
    · intro p m hm
      rcases h.commit ((hdb.maxDirect _).trans hm) with hcard | hsub
      · exact le_max_of_le_left hcard
      · exact (Finset.card_le_card hsub).trans (hdb.counts p m hm)
  beside _ _ hx _ _ _ hy hc := hx.beside hy hc

/-- A row that is active takes no further slot when it is written again. -/
theorem rewrite_exec {d : Db} {op : TupleOp} {m : ℕ} {now : ℤ} {store : ℕ} {st : Stmt}
    (hcap : d.maxDirect (pairOf op.key).key = some m)
    (hst : st ∈ [.insertRow op, .capGuard op, .capCount op, .putRow op])
    (hwild : isWildcard op.key = false) (hact : d.active now op.key = true)
    (hcount : (holders d (pairOf op.key) now).card ≤ m) :
    ∃ chs sts, st.exec now store d = some (chs, sts) ∧
      holders (chs.foldl Db.apply d) (pairOf op.key) now ⊆ holders d (pairOf op.key) now := by
  have hmem : op.key ∈ holders d (pairOf op.key) now := mem_holders.mpr ⟨rfl, hact⟩
  simp only [List.mem_cons, List.not_mem_nil, or_false] at hst
  rcases hst with rfl | rfl | rfl | rfl
  · exact ⟨_, _, rfl, Finset.Subset.refl _⟩
  · refine ⟨[], [.lock (pairOf op.key).lock, .capCount op], ?_, Finset.Subset.refl _⟩
    simp only [Stmt.exec, hcap, hwild]
    rfl
  · refine ⟨[], [.putRow op], ?_, Finset.Subset.refl _⟩
    -- the others are one fewer than the holders
    have hlt : ¬ m ≤ ((holders d (pairOf op.key) now).erase op.key).card := by
      have := Finset.card_erase_lt_of_mem hmem
      omega
    simp only [Stmt.exec, hcap, if_neg hlt]
  · refine ⟨_, _, rfl, fun k hk => ?_⟩
    obtain ⟨hp, hk⟩ := mem_holders.mp hk
    by_cases hop : k = op.key
    · exact hop ▸ hmem
    · refine mem_holders.mpr ⟨hp, active_of_not_put (fun u hu => ?_) hk⟩
      obtain ⟨e, -, he⟩ := Option.map_eq_some_iff.mp (Option.mem_toList.mp (mem_of_lastRow hu))
      exact hop (DbChange.row.inj he).1.symm

/-- **`max_direct` is exact.** In every run of calls that write tuples, from any committed tables, the
holders of a capped relation on an object are never more than the cap or than they were at first, and
a commit that leaves more of them than the cap has added none. A row that is active, on an object that
is not above its cap, passes the guard again and takes no further slot; the cap was set while no
wildcard was active, as `model_set_relation_constraint` asks. -/
theorem max_direct_exact {t : ℤ} {d₀ : Db} {es : List (Event Request)} {s : PathState}
    (hes : ∀ e ∈ es, WritesUntil t e)
    (hrun : run (step pathSystem) (State.init d₀) es = some s) {p : Pair} {m : ℕ}
    (hcap : d₀.maxDirect p.key = some m) :
    (holders s.db p t).card ≤ max m (holders d₀ p t).card ∧
    (∀ i s', step pathSystem s (.commit i) = some s' →
      (holders s'.db p t).card ≤ m ∨ holders s'.db p t ⊆ holders s.db p t) ∧
    ∀ x ∈ s.opened, ∀ op r rs st todo, x.requests = r :: rs → x.todo = st :: todo →
      st ∈ [Stmt.insertRow op, .capGuard op, .capCount op, .putRow op] → pairOf op.key = p →
      (∀ k, isWildcard k = true → (d₀.maxDirect (pairOf k).key).isSome = true →
        d₀.active r.now k = false) →
      (pathSystem.view s.db x).active r.now op.key = true →
      (holders (pathSystem.view s.db x) p r.now).card ≤ m →
      ∃ chs sts, st.exec r.now r.store (pathSystem.view s.db x) = some (chs, sts) ∧
        holders (chs.foldl Db.apply (pathSystem.view s.db x)) p r.now ⊆
          holders (pathSystem.view s.db x) p r.now := by
  have hdb : CapDb t d₀ d₀ := ⟨rfl, fun _ _ _ _ _ h => h, fun _ _ _ => le_max_right _ _⟩
  have hinv := (capInvariant t d₀).run (Invariant.holds_init hdb) (along_of_forall hes) hrun
  refine ⟨hinv.db.counts p m hcap, fun i s' hstep => ?_, ?_⟩
  · obtain ⟨x, hx, -, rfl⟩ := step_commit hstep
    exact (hinv.tx x (List.mem_of_getElem? hx)).commit ((hinv.db.maxDirect _).trans hcap)
  · rintro x hx op r rs st todo - - hst rfl hstart hact hcount
    have htx := hinv.tx x hx
    have hcap' : (pathSystem.view s.db x).maxDirect (pairOf op.key).key = some m :=
      (htx.maxDirect_view _).trans ((hinv.db.maxDirect _).trans hcap)
    refine rewrite_exec hcap' hst ?_ hact hcount
    by_contra hwild
    have hwild : isWildcard op.key = true := by simpa using hwild
    have h₀ := hinv.db.wildcards_view htx hcap hwild hact
    rw [hstart op.key hwild (by rw [hcap]; rfl)] at h₀
    cases h₀

/-- A document has at most one owner. -/
def oneOwnerDb : Db := ⟨[], ∅, [(⟨1, 2, 3⟩, ⟨some 1, none⟩)], [], []⟩

/-- A user as the owner of the document. -/
def ownerTuple (userId : String) : Tuple := ⟨1, userId, none, 3, 2, "plan", none, none, none⟩

/-- Two users are written as owners at a time; the second one waits for the first and is refused. -/
def ownerRace : List (Event Request) :=
  [Event.start, .start, .request 0 ⟨5, 1, .writeTuple (ownerTuple "alice")⟩,
      .request 1 ⟨5, 1, .writeTuple (ownerTuple "bob")⟩] ++
    List.replicate 7 (Event.exec 0) ++ Event.commit 0 :: List.replicate 5 (Event.exec 0) ++ [Event.abort 0]

/-- The race leaves one owner. -/
theorem max_direct_exact_ownerRace :
    ∃ s, run (step pathSystem) (State.init oneOwnerDb) ownerRace = some s ∧
      (holders s.db ⟨1, 2, "plan", 3⟩ 5).card ≤ 1 := by
  have hsome : (run (step pathSystem) (State.init oneOwnerDb) ownerRace).isSome = true := by
    decide +kernel
  obtain ⟨s, hs⟩ := Option.isSome_iff_exists.mp hsome
  have hes : ∀ e ∈ ownerRace, WritesUntil 5 e := by
    simp [ownerRace, WritesUntil, PathCall.isTupleCall]
  exact ⟨s, hs, (max_direct_exact hes hs (p := ⟨1, 2, "plan", 3⟩) (m := 1) rfl).1⟩

end PgAuthz.Paths
