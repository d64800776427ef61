import PgAuthz.Transition.Runs

/-!
# Transactions under shared and exclusive locks

A transaction serves requests, each of which is a program of statements. A statement first takes
its locks, for which it waits while another open transaction holds a conflicting one; it then reads
the committed table with the changes of its own transaction over it, and may fail. A commit makes
the changes visible; it and an abort release all locks of the transaction.

Where the locks of a transaction guard all that its statements touch, before they touch it, the
committed requests have the effect of running one after the other in the order of their commits.

## Main definitions

* `Mode`, `Conflict`: shared and exclusive locks
* `KeyedTable`: a table of values by location
* `System`, `step`: programs, statements, and the transition system of the transactions
* `effects`: the changes of statements that run alone
* `Guarding`, `WellLocked`: which locks guard a location, and programs that keep to it

## Main results

* `lockInv_step`: what every step keeps
* `serialisable`: the committed table is the effect of the committed requests one after the other
-/

namespace Locking

open Transition

/-- The modes of a lock. -/
inductive Mode
  | shared
  | exclusive
deriving DecidableEq, Repr

variable {Key Loc Val D Stmt Req : Type}

/-- Two locks that no two transactions hold at a time. -/
def Conflict (a b : Key × Mode) : Prop := a.1 = b.1 ∧ (a.2 = .exclusive ∨ b.2 = .exclusive)

instance [DecidableEq Key] (a b : Key × Mode) : Decidable (Conflict a b) :=
  inferInstanceAs (Decidable (_ ∧ _))

theorem Conflict.symm {a b : Key × Mode} (h : Conflict a b) : Conflict b a :=
  ⟨h.1.symm, h.2.symm⟩

/-- A table of values by location. -/
structure KeyedTable (D Loc Val : Type) where
  lookup : D → Loc → Val
  put : D → Loc × Val → D
  lookup_put_self : ∀ d l v, lookup (put d (l, v)) l = v
  lookup_put_of_ne : ∀ d l v l', l' ≠ l → lookup (put d (l, v)) l' = lookup d l'

/-- A table after a list of changes. -/
def KeyedTable.putAll (T : KeyedTable D Loc Val) (d : D) (chs : List (Loc × Val)) : D :=
  chs.foldl T.put d

/-- Requests that run as programs of statements: the locks that a statement takes, and the changes
that it makes to the table it sees, unless it fails. -/
structure System (Key Loc Val D Stmt Req : Type) where
  table : KeyedTable D Loc Val
  program : Req → List Stmt
  locks : Stmt → List (Key × Mode)
  exec : Stmt → D → Option (List (Loc × Val))

/-- An open transaction: its locks, its changes, the statements of the running request that are left,
and its requests so far. -/
structure Tx (Key Loc Val Stmt Req : Type) where
  held : List (Key × Mode)
  changes : List (Loc × Val)
  todo : List Stmt
  requests : List Req

/-- The committed table, the open transactions, and the committed requests in the order of their
commits. -/
structure State (Key Loc Val D Stmt Req : Type) where
  table : D
  opened : List (Tx Key Loc Val Stmt Req)
  committed : List Req

/-- What can happen next. A transaction is named by its place among the open ones. -/
inductive Event (Req : Type)
  | start
  | request (i : ℕ) (r : Req)
  | exec (i : ℕ)
  | commit (i : ℕ)
  | abort (i : ℕ)

/-- The state before any transaction. -/
def State.init (d : D) : State Key Loc Val D Stmt Req := ⟨d, [], []⟩

/-- A transaction after a statement: its locks, its changes, and the statements that are left. -/
def Tx.next (tx : Tx Key Loc Val Stmt Req) (locks : List (Key × Mode)) (chs : List (Loc × Val))
    (todo : List Stmt) : Tx Key Loc Val Stmt Req :=
  { tx with held := tx.held ++ locks, changes := tx.changes ++ chs, todo := todo }

/-- The statement takes no lock that conflicts with one of the transactions. -/
def System.free [DecidableEq Key] (sys : System Key Loc Val D Stmt Req)
    (others : List (Tx Key Loc Val Stmt Req)) (st : Stmt) : Bool :=
  others.all fun tx => tx.held.all fun b => (sys.locks st).all fun a => !decide (Conflict a b)

/-- The next state, unless the event cannot happen. -/
def step [DecidableEq Key] (sys : System Key Loc Val D Stmt Req)
    (s : State Key Loc Val D Stmt Req) : Event Req → Option (State Key Loc Val D Stmt Req)
  | .start => some { s with opened := s.opened ++ [⟨[], [], [], []⟩] }
  | .request i r => s.opened[i]?.bind fun tx =>
    -- the next request is sent after the one before it has returned
    if tx.todo.isEmpty then
      let tx' := { tx with todo := sys.program r, requests := tx.requests ++ [r] }
      some { s with opened := s.opened.set i tx' }
    else none
  | .exec i => s.opened[i]?.bind fun tx =>
    match tx.todo with
    | [] => none
    | st :: todo =>
      if sys.free (s.opened.eraseIdx i) st then
        (sys.exec st (sys.table.putAll s.table tx.changes)).map fun chs =>
          { s with opened := s.opened.set i (tx.next (sys.locks st) chs todo) }
      else none
  | .commit i => s.opened[i]?.bind fun tx =>
    if tx.todo.isEmpty then
      some
        { table := sys.table.putAll s.table tx.changes
          opened := s.opened.eraseIdx i
          committed := s.committed ++ tx.requests }
    else none
  | .abort i => s.opened[i]?.map fun _ => { s with opened := s.opened.eraseIdx i }

/-! ## Statements that run alone -/

/-- Changes at other locations leave a value as it is. -/
theorem KeyedTable.lookup_putAll_of_not_mem (T : KeyedTable D Loc Val) {chs : List (Loc × Val)}
    {l : Loc} (hl : ∀ c ∈ chs, c.1 ≠ l) (d : D) : T.lookup (T.putAll d chs) l = T.lookup d l := by
  induction chs generalizing d with
  | nil => rfl
  | cons c chs ih =>
    have hc : l ≠ c.1 := (hl c List.mem_cons_self).symm
    exact (ih (fun c' hc' => hl c' (List.mem_cons_of_mem c hc')) (T.put d c)).trans
      (T.lookup_put_of_ne d c.1 c.2 l hc)

/-- The value at a location after changes depends on the value before. -/
theorem KeyedTable.lookup_putAll_congr (T : KeyedTable D Loc Val) {d d' : D} {l : Loc}
    (h : T.lookup d l = T.lookup d' l) (chs : List (Loc × Val)) :
    T.lookup (T.putAll d chs) l = T.lookup (T.putAll d' chs) l := by
  induction chs generalizing d d' with
  | nil => exact h
  | cons c chs ih =>
    refine ih ?_
    by_cases hl : l = c.1
    · subst hl
      exact (T.lookup_put_self d c.1 c.2).trans (T.lookup_put_self d' c.1 c.2).symm
    · exact (T.lookup_put_of_ne d c.1 c.2 l hl).trans
        (h.trans (T.lookup_put_of_ne d' c.1 c.2 l hl).symm)

theorem KeyedTable.putAll_append (T : KeyedTable D Loc Val) (d : D) (chs chs' : List (Loc × Val)) :
    T.putAll d (chs ++ chs') = T.putAll (T.putAll d chs) chs' :=
  List.foldl_append

/-- The changes of statements with the meaning `spec` that run one after the other, unless one of
them fails. -/
def effects (T : KeyedTable D Loc Val) (spec : Stmt → D → Option (List (Loc × Val))) :
    List Stmt → D → Option (List (Loc × Val))
  | [], _ => some []
  | st :: sts, d => (spec st d).bind fun chs =>
    (effects T spec sts (T.putAll d chs)).map (chs ++ ·)

section Effects

variable {T : KeyedTable D Loc Val} {spec : Stmt → D → Option (List (Loc × Val))}

theorem effects_cons {st : Stmt} {sts : List Stmt} {d : D} {chs : List (Loc × Val)} :
    effects T spec (st :: sts) d = some chs ↔
      ∃ chs₁ chs₂, spec st d = some chs₁ ∧ effects T spec sts (T.putAll d chs₁) = some chs₂ ∧
        chs = chs₁ ++ chs₂ := by
  rw [effects, Option.bind_eq_some_iff]
  constructor
  · rintro ⟨chs₁, h₁, h⟩
    obtain ⟨chs₂, h₂, rfl⟩ := Option.map_eq_some_iff.mp h
    exact ⟨chs₁, chs₂, h₁, h₂, rfl⟩
  · rintro ⟨chs₁, chs₂, h₁, h₂, rfl⟩
    exact ⟨chs₁, h₁, Option.map_eq_some_iff.mpr ⟨chs₂, h₂, rfl⟩⟩

theorem effects_append {sts sts' : List Stmt} {d : D} {chs : List (Loc × Val)} :
    effects T spec (sts ++ sts') d = some chs ↔
      ∃ chs₁ chs₂, effects T spec sts d = some chs₁ ∧
        effects T spec sts' (T.putAll d chs₁) = some chs₂ ∧ chs = chs₁ ++ chs₂ := by
  induction sts generalizing d chs with
  | nil => simp [effects, KeyedTable.putAll]
  | cons st sts ih =>
    simp only [List.cons_append, effects_cons, ih]
    constructor
    · rintro ⟨chs₁, -, hst, ⟨chs₂, chs₃, h₂, h₃, rfl⟩, rfl⟩
      rw [← T.putAll_append] at h₃
      exact ⟨chs₁ ++ chs₂, chs₃, ⟨chs₁, chs₂, hst, h₂, rfl⟩, h₃, (List.append_assoc ..).symm⟩
    · rintro ⟨-, chs₃, ⟨chs₁, chs₂, hst, h₂, rfl⟩, h₃, rfl⟩
      rw [T.putAll_append] at h₃
      exact ⟨chs₁, chs₂ ++ chs₃, hst, ⟨chs₂, chs₃, h₂, h₃, rfl⟩, List.append_assoc ..⟩

end Effects

/-! ## Locks that guard what is touched -/

/-- Which locations a statement touches and which locks guard a location. The meaning `spec` says
what is to hold of a statement that runs alone: it may leave out checks of the statement. It depends
on the locations touched and changes no others, and two transactions whose locks guard one location
hold conflicting ones. -/
structure Guarding (sys : System Key Loc Val D Stmt Req) where
  spec : Stmt → D → Option (List (Loc × Val))
  touches : Stmt → Loc → Prop
  guards : List (Key × Mode) → Loc → Prop
  spec_of_exec : ∀ {st d chs}, sys.exec st d = some chs → spec st d = some chs
  spec_congr : ∀ {st d d'}, (∀ l, touches st l → sys.table.lookup d l = sys.table.lookup d' l) →
    spec st d = spec st d'
  touches_of_spec : ∀ {st d chs}, spec st d = some chs → ∀ c ∈ chs, touches st c.1
  guards_mono : ∀ {held held' l}, held ⊆ held' → guards held l → guards held' l
  conflict_of_guards : ∀ {held held' l}, guards held l → guards held' l →
    ∃ a ∈ held, ∃ b ∈ held', Conflict a b

variable {sys : System Key Loc Val D Stmt Req}

/-- Every statement touches what is guarded by the locks taken before it. -/
def WellLocked (g : Guarding sys) (held : List (Key × Mode)) : List Stmt → Prop
  | [] => True
  | st :: sts => (∀ l, g.touches st l → g.guards held l) ∧
    -- nothing is asked of what follows a statement that always fails
    ((∃ d chs, g.spec st d = some chs) → WellLocked g (held ++ sys.locks st) sts)

section Guarded

variable {g : Guarding sys}

theorem WellLocked.mono {held held' : List (Key × Mode)} (hsub : held ⊆ held') {sts : List Stmt}
    (h : WellLocked g held sts) : WellLocked g held' sts := by
  induction sts generalizing held held' with
  | nil => trivial
  | cons st sts ih =>
    refine ⟨fun l hl => g.guards_mono hsub (h.1 l hl), fun hst => ih ?_ (h.2 hst)⟩
    exact List.append_subset.mpr ⟨List.subset_append_of_subset_left _ hsub,
      List.subset_append_right _ _⟩

/-- Statements that touch nothing come before ones that the locks then guard. -/
theorem wellLocked_append {held : List (Key × Mode)} {sts sts' : List Stmt}
    (hsts : ∀ st ∈ sts, ∀ l, ¬ g.touches st l)
    (h : (∀ st ∈ sts, ∃ d chs, g.spec st d = some chs) →
      WellLocked g (held ++ sts.flatMap sys.locks) sts') :
    WellLocked g held (sts ++ sts') := by
  induction sts generalizing held with
  | nil => simpa using h
  | cons st sts ih =>
    refine ⟨fun l hl => absurd hl (hsts st List.mem_cons_self l), fun hst => ?_⟩
    refine ih (fun st' hst' => hsts st' (List.mem_cons_of_mem st hst')) fun hall => ?_
    have := h fun st' hst' => by
      rcases List.mem_cons.mp hst' with rfl | hst'
      · exact hst
      · exact hall st' hst'
    rwa [List.flatMap_cons, ← List.append_assoc] at this

theorem wellLocked_of_guarded {held : List (Key × Mode)} {sts : List Stmt}
    (h : ∀ st ∈ sts, ∀ l, g.touches st l → g.guards held l) : WellLocked g held sts := by
  induction sts generalizing held with
  | nil => trivial
  | cons st sts ih =>
    refine ⟨h st List.mem_cons_self, fun _ => ih fun st' hst' l hl => ?_⟩
    exact g.guards_mono (List.subset_append_left _ _) (h st' (List.mem_cons_of_mem st hst') l hl)

/-- Statements change what they touch. -/
theorem touches_of_effects {sts : List Stmt} {d : D} {chs : List (Loc × Val)}
    (h : effects sys.table g.spec sts d = some chs) : ∀ c ∈ chs, ∃ st ∈ sts, g.touches st c.1 := by
  induction sts generalizing d chs with
  | nil =>
    cases h
    simp
  | cons st sts ih =>
    obtain ⟨chs₁, chs₂, h₁, h₂, rfl⟩ := effects_cons.mp h
    intro c hc
    rcases List.mem_append.mp hc with hc | hc
    · exact ⟨st, List.mem_cons_self, g.touches_of_spec h₁ c hc⟩
    · obtain ⟨st', hst', hl⟩ := ih h₂ c hc
      exact ⟨st', List.mem_cons_of_mem st hst', hl⟩

/-- The changes of statements depend on what they touch. -/
theorem effects_congr {sts : List Stmt} {d d' : D}
    (h : ∀ st ∈ sts, ∀ l, g.touches st l → sys.table.lookup d l = sys.table.lookup d' l) :
    effects sys.table g.spec sts d = effects sys.table g.spec sts d' := by
  induction sts generalizing d d' with
  | nil => rfl
  | cons st sts ih =>
    rw [effects, effects, g.spec_congr (h st List.mem_cons_self)]
    congr 1
    ext1 chs
    -- both tables take the same changes, so they still agree on what the others touch
    rw [ih fun st' hst' l hl =>
      sys.table.lookup_putAll_congr (h st' (List.mem_cons_of_mem st hst') l hl) chs]

/-! ## What the steps keep -/

/-- No lock of one transaction conflicts with one of the other. -/
def Compatible (tx tx' : Tx Key Loc Val Stmt Req) : Prop :=
  ∀ a ∈ tx.held, ∀ b ∈ tx'.held, ¬ Conflict a b

theorem Compatible.symm {tx tx' : Tx Key Loc Val Stmt Req} (h : Compatible tx tx') :
    Compatible tx' tx :=
  fun a ha b hb hab => h b hb a ha hab.symm

/-- An open transaction has made the changes that its statements so far would make alone on the
committed table; its locks guard what they touch, and the other statements are well locked. -/
def TxInv (g : Guarding sys) (d : D) (tx : Tx Key Loc Val Stmt Req) : Prop :=
  ∃ sts, tx.requests.flatMap sys.program = sts ++ tx.todo ∧
    effects sys.table g.spec sts d = some tx.changes ∧
    (∀ st ∈ sts, ∀ l, g.touches st l → g.guards tx.held l) ∧ WellLocked g tx.held tx.todo

/-- **The invariant.** The locks are compatible, every open transaction has the effect it would have
alone, and the committed table is the effect of the committed requests one after the other. -/
structure LockInv (g : Guarding sys) (d₀ : D) (s : State Key Loc Val D Stmt Req) : Prop where
  compatible : s.opened.Pairwise Compatible
  opened : ∀ tx ∈ s.opened, TxInv g s.table tx
  serial : ∃ chs, effects sys.table g.spec (s.committed.flatMap sys.program) d₀ = some chs ∧
    sys.table.putAll d₀ chs = s.table

/-- A request starts with the locks of the transaction, and is well locked without them. -/
def RequestsWellLocked (g : Guarding sys) (_ : State Key Loc Val D Stmt Req) : Event Req → Prop
  | .request _ r => WellLocked g [] (sys.program r)
  | _ => True

variable {d₀ : D} {s s' : State Key Loc Val D Stmt Req} {i : ℕ} {tx : Tx Key Loc Val Stmt Req}

theorem lockInv_init (g : Guarding sys) (d₀ : D) : LockInv g d₀ (State.init d₀) where
  compatible := List.Pairwise.nil
  opened := by simp [State.init]
  serial := ⟨[], rfl, rfl⟩

/-- An open transaction is compatible with the others. -/
theorem LockInv.compatible_of_getElem? (h : LockInv g d₀ s) (htx : s.opened[i]? = some tx) :
    ∀ tx' ∈ s.opened.eraseIdx i, Compatible tx tx' := by
  obtain ⟨l₁, l₂, hopened, -, herase⟩ := split_of_getElem? htx
  have hc := h.compatible
  rw [hopened, List.pairwise_middle Compatible.symm, List.pairwise_cons] at hc
  rw [herase]
  exact hc.1

/-- A transaction goes on. -/
theorem LockInv.set (h : LockInv g d₀ s) (htx : s.opened[i]? = some tx)
    {tx' : Tx Key Loc Val Stmt Req} (hinv : TxInv g s.table tx')
    (hc : ∀ tx'' ∈ s.opened.eraseIdx i, Compatible tx' tx'') :
    LockInv g d₀ { s with opened := s.opened.set i tx' } := by
  obtain ⟨l₁, l₂, hopened, hset, herase⟩ := split_of_getElem? htx
  refine { h with compatible := ?_, opened := ?_ }
  · have hold := h.compatible
    rw [hopened, List.pairwise_middle Compatible.symm, List.pairwise_cons] at hold
    show (s.opened.set i tx').Pairwise Compatible
    rw [hset, List.pairwise_middle Compatible.symm, List.pairwise_cons]
    exact ⟨herase ▸ hc, hold.2⟩
  · intro tx'' htx''
    rcases List.mem_or_eq_of_mem_set htx'' with hmem | rfl
    · exact h.opened tx'' hmem
    · exact hinv

/-- **What another transaction commits is not touched by an open one.** -/
theorem TxInv.commit {tx' : Tx Key Loc Val Stmt Req} {d : D} (h : TxInv g d tx)
    (h' : TxInv g d tx') (hc : Compatible tx tx') :
    TxInv g (sys.table.putAll d tx'.changes) tx := by
  obtain ⟨sts, hprog, heff, hguard, hwell⟩ := h
  obtain ⟨sts', -, heff', hguard', -⟩ := h'
  refine ⟨sts, hprog, ?_, hguard, hwell⟩
  rw [← heff]
  refine effects_congr fun st hst l hl => ?_
  refine sys.table.lookup_putAll_of_not_mem (fun c hc' heq => ?_) d
  obtain ⟨st', hst', hl'⟩ := touches_of_effects heff' c hc'
  -- both transactions would guard the location
  obtain ⟨a, ha, b, hb, hab⟩ :=
    g.conflict_of_guards (hguard st hst l hl) (hguard' st' hst' l (heq ▸ hl'))
  exact hc a ha b hb hab

theorem LockInv.commit (h : LockInv g d₀ s) (htx : s.opened[i]? = some tx) (htodo : tx.todo = []) :
    LockInv g d₀
      { table := sys.table.putAll s.table tx.changes
        opened := s.opened.eraseIdx i
        committed := s.committed ++ tx.requests } where
  compatible := h.compatible.sublist (List.eraseIdx_sublist _ _)
  opened := fun tx' htx' => (h.opened tx' (List.mem_of_mem_eraseIdx htx')).commit
    (h.opened tx (List.mem_of_getElem? htx)) (h.compatible_of_getElem? htx tx' htx').symm
  serial := by
    obtain ⟨chs, heff, htable⟩ := h.serial
    obtain ⟨sts, hprog, hsts, -⟩ := h.opened tx (List.mem_of_getElem? htx)
    rw [htodo, List.append_nil] at hprog
    refine ⟨chs ++ tx.changes, ?_, ?_⟩
    · rw [List.flatMap_append, hprog, effects_append]
      exact ⟨chs, tx.changes, heff, htable ▸ hsts, rfl⟩
    · rw [sys.table.putAll_append, htable]

variable [DecidableEq Key]

/-- **A statement of an open transaction.** -/
theorem LockInv.exec (h : LockInv g d₀ s) (htx : s.opened[i]? = some tx) {st : Stmt}
    {todo : List Stmt} (htodo : tx.todo = st :: todo)
    (hfree : sys.free (s.opened.eraseIdx i) st = true) {chs : List (Loc × Val)}
    (hexec : sys.exec st (sys.table.putAll s.table tx.changes) = some chs) :
    LockInv g d₀ { s with opened := s.opened.set i (tx.next (sys.locks st) chs todo) } := by
  obtain ⟨sts, hprog, heff, hguard, hwell⟩ := h.opened tx (List.mem_of_getElem? htx)
  rw [htodo] at hprog hwell
  have hspec := g.spec_of_exec hexec
  refine h.set htx ⟨sts ++ [st], ?_, ?_, ?_, hwell.2 ⟨_, chs, hspec⟩⟩ ?_
  · exact hprog.trans (List.append_cons sts st todo)
  · exact effects_append.mpr ⟨tx.changes, chs, heff,
      effects_cons.mpr ⟨chs, [], hspec, rfl, (List.append_nil chs).symm⟩, rfl⟩
  · intro st' hst' l hl
    refine g.guards_mono (List.subset_append_left _ _) ?_
    rcases List.mem_append.mp hst' with hst' | hst'
    · exact hguard st' hst' l hl
    · rw [List.mem_singleton.mp hst'] at hl
      exact hwell.1 l hl
  · intro tx' htx' a ha b hb
    rcases List.mem_append.mp ha with ha | ha
    · exact h.compatible_of_getElem? htx tx' htx' a ha b hb
    · have := List.all_eq_true.mp (List.all_eq_true.mp (List.all_eq_true.mp hfree tx' htx') b hb) a ha
      simpa using this

/-- **Every step that sends well-locked requests keeps the invariant.** -/
theorem lockInv_step (e : Event Req) (h : LockInv g d₀ s) (hok : RequestsWellLocked g s e)
    (hstep : step sys s e = some s') : LockInv g d₀ s' := by
  cases e with
  -- a transaction that has done nothing holds no lock
  | start =>
    cases hstep
    refine { h with compatible := ?_, opened := ?_ }
    · exact List.pairwise_append.mpr ⟨h.compatible, List.pairwise_singleton _ _, by
        simp [Compatible]⟩
    · intro tx htx
      rcases List.mem_append.mp htx with htx | htx
      · exact h.opened tx htx
      · rw [List.mem_singleton.mp htx]
        exact ⟨[], rfl, rfl, by simp, trivial⟩
  -- a request that follows on keeps the locks of those before it
  | request i r =>
    obtain ⟨tx, htx, hstep⟩ := Option.bind_eq_some_iff.mp hstep
    split at hstep
    · rename_i htodo
      cases hstep
      obtain ⟨sts, hprog, heff, hguard, -⟩ := h.opened tx (List.mem_of_getElem? htx)
      rw [List.isEmpty_iff.mp htodo, List.append_nil] at hprog
      refine h.set htx ⟨sts, ?_, heff, hguard, hok.mono (List.nil_subset _)⟩ fun tx' htx' =>
        h.compatible_of_getElem? htx tx' htx'
      rw [List.flatMap_append, hprog, List.flatMap_singleton]
    · cases hstep
  -- a statement runs once its lock is free
  | exec i =>
    obtain ⟨tx, htx, hstep⟩ := Option.bind_eq_some_iff.mp hstep
    split at hstep
    · cases hstep
    · rename_i st todo htodo
      split at hstep
      · rename_i hfree
        obtain ⟨chs, hexec, rfl⟩ := Option.map_eq_some_iff.mp hstep
        exact h.exec htx htodo hfree hexec
      · cases hstep
  | commit i =>
    obtain ⟨tx, htx, hstep⟩ := Option.bind_eq_some_iff.mp hstep
    split at hstep
    · rename_i htodo
      cases hstep
      exact h.commit htx (List.isEmpty_iff.mp htodo)
    · cases hstep
  | abort i =>
    obtain ⟨tx, htx, rfl⟩ := Option.map_eq_some_iff.mp hstep
    exact
      { h with
        compatible := h.compatible.sublist (List.eraseIdx_sublist _ _)
        opened := fun tx' htx' => h.opened tx' (List.mem_of_mem_eraseIdx htx') }

/-- **Well-locked requests are serialisable.** In every run, the committed requests would have
succeeded one after the other in the order of their commits, and the committed table is what they
would have left. -/
theorem serialisable (g : Guarding sys) {es : List (Event Req)}
    (hok : Along (step sys) (RequestsWellLocked g) (State.init d₀) es)
    (hrun : run (step sys) (State.init d₀) es = some s) :
    ∃ chs, effects sys.table g.spec (s.committed.flatMap sys.program) d₀ = some chs ∧
      sys.table.putAll d₀ chs = s.table :=
  (hok.run (fun _ e _ h hok hstep => lockInv_step e h hok hstep) (lockInv_init g d₀) hrun).serial

end Guarded

end Locking
