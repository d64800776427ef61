import Mathlib.Data.Set.Insert
import PgAuthz.Transition.Runs

/-!
# Transactions that write row versions

Transactions over a table with a unique key, at read committed. A request runs as a script of
statements; each statement reads the committed rows with the versions of its own transaction over
them, and may write one row and send further statements before the ones that are left. It waits
while another open transaction has written the row under the same key or holds a conflicting lock.
A commit makes the versions visible, and an abort drops them.

Transactions that write different rows do not wait for one another, and none of them sees what the
other writes. A property of the rows is therefore followed over every set of open transactions that
may commit: the rows that the set would leave.

## Main definitions

* `System`, `step`: scripts, statements, and the transition system of the transactions
* `merged sys db T`: the rows that the commits of the transactions `T` would leave
* `Invariant`: what has to be shown of one statement, whichever of the other transactions commit

## Main results

* `merged_write`, `merged_commit`: a write and a commit, seen from the rows that are left
* `Invariant.run`: every run keeps an invariant
-/

namespace Versions

open Transition

variable {Row Key Lock Stmt Req : Type}

/-- A changed row: inserted or updated, or else deleted. -/
inductive Write (Row Key : Type)
  | put (row : Row)
  | drop (key : Key)

/-- Requests that run as scripts over a table: its key, the locks that conflict, the script of a
request, the lock of a statement, and the row that a statement writes and the statements it sends, on
the rows that it sees, unless it raises. -/
structure System (Row Key Lock Stmt Req : Type) where
  key : Row → Key
  conflicts : Lock → Lock → Bool
  script : Req → List Stmt
  lock : Stmt → Option Lock
  exec : Stmt → List Row → Option (Option (Write Row Key) × List Stmt)

/-- An open transaction: its locks, the keys that it has written, its versions of their rows, and the
statements of the running request that are left. -/
structure Tx (Row Key Lock Stmt : Type) where
  held : List Lock
  touched : List Key
  rows : List Row
  todo : List Stmt
deriving DecidableEq

/-- The committed rows and the open transactions. -/
structure State (Row Key Lock Stmt : Type) where
  db : List Row
  opened : List (Tx Row Key Lock Stmt)
deriving DecidableEq

/-- What can happen next. A transaction is named by its place among the open ones. -/
inductive Event (Req : Type)
  | start
  | request (i : ℕ) (r : Req)
  | exec (i : ℕ)
  | commit (i : ℕ)
  | abort (i : ℕ)

/-- A transaction before its first request. -/
def Tx.init : Tx Row Key Lock Stmt := ⟨[], [], [], []⟩

/-- The state before any transaction. -/
def State.init (db : List Row) : State Row Key Lock Stmt := ⟨db, []⟩

/-- The key of a write. -/
def System.keyOf (sys : System Row Key Lock Stmt Req) : Write Row Key → Key
  | .put r => sys.key r
  | .drop k => k

section Writes

variable [DecidableEq Key] (sys : System Row Key Lock Stmt Req)

/-- The rows that the commits of a list of transactions would leave. -/
def mergedRows (db : List Row) (xs : List (Tx Row Key Lock Stmt)) : List Row :=
  (db.filter fun m => xs.all fun y => sys.key m ∉ y.touched) ++ xs.flatMap Tx.rows

/-- The rows as a transaction sees them. -/
def view (db : List Row) (x : Tx Row Key Lock Stmt) : List Row := mergedRows sys db [x]

/-- A transaction after a write: its version of the row takes the place of the one it had. -/
def Tx.write (x : Tx Row Key Lock Stmt) : Write Row Key → Tx Row Key Lock Stmt
  | .put r => { x with touched := sys.key r :: x.touched
                       rows := (x.rows.filter fun m => sys.key m ≠ sys.key r) ++ [r] }
  | .drop k => { x with touched := k :: x.touched
                        rows := x.rows.filter fun m => sys.key m ≠ k }

/-- A transaction after a statement. -/
def Tx.next (x : Tx Row Key Lock Stmt) (lock : Option Lock) (w : Option (Write Row Key))
    (todo : List Stmt) : Tx Row Key Lock Stmt :=
  { w.elim x (x.write sys) with held := x.held ++ lock.toList, todo }

/-- The statement takes no lock that conflicts with one of the transactions, and writes no row that one
of them has written. -/
def free (others : List (Tx Row Key Lock Stmt)) (st : Stmt) (w : Option (Write Row Key)) : Bool :=
  others.all fun y => (y.held.all fun b => (sys.lock st).all fun a => !sys.conflicts a b) &&
    w.all fun w => sys.keyOf w ∉ y.touched

/-- The next state, unless the event cannot happen. -/
def step (s : State Row Key Lock Stmt) : Event Req → Option (State Row Key Lock Stmt)
  | .start => some { s with opened := s.opened ++ [Tx.init] }
  | .request i r => s.opened[i]?.bind fun x =>
    -- the next request is sent after the one before it has returned
    if x.todo.isEmpty then some { s with opened := s.opened.set i { x with todo := sys.script r } }
    else none
  | .exec i => s.opened[i]?.bind fun x =>
    match x.todo with
    | st :: todo => (sys.exec st (view sys s.db x)).bind fun (w, sts) =>
      if free sys (s.opened.eraseIdx i) st w then
        some { s with opened := s.opened.set i (x.next sys (sys.lock st) w (sts ++ todo)) }
      else none
    | [] => none
  | .commit i => s.opened[i]?.bind fun x =>
    if x.todo.isEmpty then some ⟨view sys s.db x, s.opened.eraseIdx i⟩ else none
  | .abort i => s.opened[i]?.map fun _ => { s with opened := s.opened.eraseIdx i }

end Writes

/-! ## What a step can do -/

section Steps

variable [DecidableEq Key] {sys : System Row Key Lock Stmt Req} {s s' : State Row Key Lock Stmt} {i : ℕ}

theorem step_request {r : Req} (h : step sys s (.request i r) = some s') :
    ∃ x, s.opened[i]? = some x ∧ x.todo = [] ∧
      s' = { s with opened := s.opened.set i { x with todo := sys.script r } } := by
  obtain ⟨x, hx, h⟩ := Option.bind_eq_some_iff.mp h
  split at h
  · rename_i htodo
    exact ⟨x, hx, List.isEmpty_iff.mp htodo, (Option.some.inj h).symm⟩
  · cases h

theorem step_exec (h : step sys s (.exec i) = some s') :
    ∃ x st todo w sts, s.opened[i]? = some x ∧ x.todo = st :: todo ∧
      sys.exec st (view sys s.db x) = some (w, sts) ∧ free sys (s.opened.eraseIdx i) st w = true ∧
      s' = { s with opened := s.opened.set i (x.next sys (sys.lock st) w (sts ++ todo)) } := by
  obtain ⟨x, hx, h⟩ := Option.bind_eq_some_iff.mp h
  split at h
  · rename_i st todo htodo
    obtain ⟨⟨w, sts⟩, hexec, h⟩ := Option.bind_eq_some_iff.mp h
    dsimp only at h
    split at h
    · rename_i hfree
      exact ⟨x, st, todo, w, sts, hx, htodo, hexec, hfree, (Option.some.inj h).symm⟩
    · cases h
  · cases h

theorem step_commit (h : step sys s (.commit i) = some s') :
    ∃ x, s.opened[i]? = some x ∧ x.todo = [] ∧ s' = ⟨view sys s.db x, s.opened.eraseIdx i⟩ := by
  obtain ⟨x, hx, h⟩ := Option.bind_eq_some_iff.mp h
  split at h
  · rename_i htodo
    exact ⟨x, hx, List.isEmpty_iff.mp htodo, (Option.some.inj h).symm⟩
  · cases h

theorem step_abort (h : step sys s (.abort i) = some s') :
    s' = { s with opened := s.opened.eraseIdx i } := by
  obtain ⟨x, -, rfl⟩ := Option.map_eq_some_iff.mp h
  rfl

theorem not_touched_of_free {others : List (Tx Row Key Lock Stmt)} {st : Stmt} {w : Write Row Key}
    (h : free sys others st (some w) = true) : ∀ y ∈ others, sys.keyOf w ∉ y.touched := by
  intro y hy
  have hall := List.all_eq_true.mp h y hy
  simpa using (Bool.and_eq_true_iff.mp hall).2

end Steps

/-! ## The rows that transactions would leave -/

section Merged

variable [DecidableEq Key] {sys : System Row Key Lock Stmt Req} {db : List Row}
  {x : Tx Row Key Lock Stmt} {T : Set (Tx Row Key Lock Stmt)} {m : Row}

/-- The rows that the commits of a set of transactions would leave. -/
def merged (sys : System Row Key Lock Stmt Req) (db : List Row) (T : Set (Tx Row Key Lock Stmt)) :
    Set Row :=
  {m | (m ∈ db ∧ ∀ y ∈ T, sys.key m ∉ y.touched) ∨ ∃ y ∈ T, m ∈ y.rows}

/-- A table after a write. -/
def Write.apply (sys : System Row Key Lock Stmt Req) (P : Set Row) : Write Row Key → Set Row
  | .put r => {m | m ∈ P ∧ sys.key m ≠ sys.key r ∨ m = r}
  | .drop k => {m | m ∈ P ∧ sys.key m ≠ k}

/-- A transaction has versions of rows that it has written only. -/
def Tx.Owns (sys : System Row Key Lock Stmt Req) (x : Tx Row Key Lock Stmt) : Prop :=
  ∀ m ∈ x.rows, sys.key m ∈ x.touched

/-- Two transactions have written no row both. -/
def Apart (x y : Tx Row Key Lock Stmt) : Prop := ∀ k ∈ x.touched, k ∉ y.touched

omit [DecidableEq Key] in
theorem Apart.symm {x y : Tx Row Key Lock Stmt} (h : Apart x y) : Apart y x :=
  fun k hk hk' => h k hk' hk

theorem mem_mergedRows {xs : List (Tx Row Key Lock Stmt)} :
    m ∈ mergedRows sys db xs ↔ m ∈ merged sys db {y | y ∈ xs} := by
  simp [mergedRows, merged]

theorem mem_view : m ∈ view sys db x ↔ m ∈ db ∧ sys.key m ∉ x.touched ∨ m ∈ x.rows := by
  simp [view, mergedRows]

omit [DecidableEq Key] in
theorem mem_merged_insert : m ∈ merged sys db (insert x T) ↔
    (m ∈ db ∧ sys.key m ∉ x.touched ∧ ∀ y ∈ T, sys.key m ∉ y.touched) ∨
      m ∈ x.rows ∨ ∃ y ∈ T, m ∈ y.rows := by
  simp [merged]

omit [DecidableEq Key] in
/-- A transaction that has written nothing leaves the rows as they are. -/
theorem merged_insert_init : merged sys db (insert Tx.init T) = merged sys db T := by
  ext m
  rw [mem_merged_insert]
  simp [Tx.init, merged]

omit [DecidableEq Key] in
/-- The locks and the statements that are left are of no account for the rows. -/
theorem merged_insert_congr (a b : Tx Row Key Lock Stmt) (ht : a.touched = b.touched)
    (hr : a.rows = b.rows) : merged sys db (insert a T) = merged sys db (insert b T) := by
  ext m
  rw [mem_merged_insert, mem_merged_insert, ht, hr]

/-- What a transaction sees under a key that none of the others has written is left. -/
theorem mem_merged_of_view (hm : m ∈ view sys db x) (hT : ∀ y ∈ T, sys.key m ∉ y.touched) :
    m ∈ merged sys db (insert x T) := by
  rw [mem_merged_insert]
  rcases mem_view.mp hm with ⟨hm, hx⟩ | hm
  · exact .inl ⟨hm, hx, hT⟩
  · exact .inr (.inl hm)

/-- **A write** of a row that none of the others has written. -/
theorem merged_write {w : Write Row Key} (hw : ∀ y ∈ T, sys.keyOf w ∉ y.touched)
    (hT : ∀ y ∈ T, y.Owns sys) :
    merged sys db (insert (x.write sys w) T) = w.apply sys (merged sys db (insert x T)) := by
  have hother : ∀ {m}, (∃ y ∈ T, m ∈ y.rows) → sys.key m ≠ sys.keyOf w := by
    rintro m ⟨y, hy, hm⟩ hkey
    exact hw y hy (hkey ▸ hT y hy m hm)
  ext m
  cases w with
  | put r =>
    simp only [Write.apply, Set.mem_ofPred_eq, mem_merged_insert, Tx.write, List.mem_cons, not_or,
      List.mem_append, List.mem_filter, decide_eq_true_eq, List.not_mem_nil, or_false]
    have hne := @hother m
    simp only [System.keyOf] at hne
    grind
  | drop k =>
    simp only [Write.apply, Set.mem_ofPred_eq, mem_merged_insert, Tx.write, List.mem_cons, not_or,
      List.mem_filter, decide_eq_true_eq]
    have hne := @hother m
    simp only [System.keyOf] at hne
    grind

/-- **A commit** makes of what a transaction would leave what the others find. -/
theorem merged_commit (hx : x.Owns sys) (hT : ∀ y ∈ T, Apart x y) :
    merged sys (view sys db x) T = merged sys db (insert x T) := by
  have hapart : ∀ {m}, m ∈ x.rows → ∀ y ∈ T, sys.key m ∉ y.touched := fun hm y hy =>
    hT y hy _ (hx _ hm)
  ext m
  rw [mem_merged_insert]
  simp only [merged, Set.mem_ofPred_eq, mem_view]
  constructor
  · rintro (⟨⟨hm, hfree⟩ | hm, hothers⟩ | hm)
    · exact .inl ⟨hm, hfree, hothers⟩
    · exact .inr (.inl hm)
    · exact .inr (.inr hm)
  · rintro (⟨hm, hfree, hothers⟩ | hm | hm)
    · exact .inl ⟨.inl ⟨hm, hfree⟩, hothers⟩
    · -- what the transaction wrote, no other one touches
      exact .inl ⟨.inr hm, hapart hm⟩
    · exact .inr hm

end Merged

/-! ## Invariants -/

/-- A property of the rows that a set of open transactions would leave, such that it follows from itself
over the statements that meet the condition `ok`, whichever of the other transactions commit. -/
structure Invariant [DecidableEq Key] (sys : System Row Key Lock Stmt Req)
    (ok : State Row Key Lock Stmt → Event Req → Prop) where
  holds : Set Row → Set (Tx Row Key Lock Stmt) → Prop
  start : ∀ {P T}, holds P T → holds P (insert Tx.init T)
  request : ∀ {x P T} (r : Req), x.todo = [] → holds P (insert x T) →
    holds P (insert { x with todo := sys.script r } T)
  exec : ∀ {s i x st todo w sts T}, s.opened[i]? = some x → x.todo = st :: todo →
    ok s (.exec i) → sys.exec st (view sys s.db x) = some (w, sts) →
    T ⊆ {y | y ∈ s.opened.eraseIdx i} → (∀ w' ∈ w, ∀ y ∈ T, sys.keyOf w' ∉ y.touched) →
    holds (merged sys s.db (insert x T)) (insert x T) →
    holds (w.elim (merged sys s.db (insert x T)) (Write.apply sys (merged sys s.db (insert x T))))
      (insert (x.next sys (sys.lock st) w (sts ++ todo)) T)
  commit : ∀ {x P T}, x.todo = [] → holds P (insert x T) → holds P T

namespace Invariant

variable [DecidableEq Key] {sys : System Row Key Lock Stmt Req}
  {ok : State Row Key Lock Stmt → Event Req → Prop} {s s' : State Row Key Lock Stmt}

/-- The property holds of the rows that any of the open transactions would leave, and no two of them
have written the same row. -/
structure Holds (I : Invariant sys ok) (s : State Row Key Lock Stmt) : Prop where
  owns : ∀ x ∈ s.opened, x.Owns sys
  apart : s.opened.Pairwise Apart
  holds : ∀ T ⊆ {y | y ∈ s.opened}, I.holds (merged sys s.db T) T

variable {I : Invariant sys ok}

theorem holds_init {db : List Row} (h : I.holds {m | m ∈ db} ∅) : I.Holds (State.init db) where
  owns := by simp [State.init]
  apart := List.Pairwise.nil
  holds T hT := by
    obtain rfl : T = ∅ := Set.subset_empty_iff.mp fun y hy => absurd (hT hy) List.not_mem_nil
    have hmerged : merged sys (State.init db : State Row Key Lock Stmt).db ∅ = {m | m ∈ db} := by
      ext m
      simp [merged, State.init]
    rwa [hmerged]

/-- The rows that are committed have the property. -/
theorem Holds.committed (h : I.Holds s) : I.holds {m | m ∈ s.db} ∅ := by
  have hmerged : merged sys s.db ∅ = {m | m ∈ s.db} := by
    ext m
    simp [merged]
  exact hmerged ▸ h.holds ∅ (Set.empty_subset _)

/-- A set of transactions has one of them and some of the others, or some of the others alone. -/
theorem subset_cases {α : Type} {l : List α} {a : α} {T : Set α} (hT : T ⊆ {y | y ∈ a :: l}) :
    T ⊆ {y | y ∈ l} ∨ ∃ T' ⊆ {y | y ∈ l}, T = insert a T' := by
  by_cases ha : a ∈ T
  · refine .inr ⟨T \ {a}, fun y hy => ?_, ?_⟩
    · exact (List.mem_cons.mp (hT hy.1)).resolve_left hy.2
    · grind
  · refine .inl fun y hy => (List.mem_cons.mp (hT hy)).resolve_left ?_
    rintro rfl
    exact ha hy

/-- An open transaction has written no row that one of the others has. -/
theorem Holds.apart_of_getElem? (h : I.Holds s) {i : ℕ} {x : Tx Row Key Lock Stmt}
    (hx : s.opened[i]? = some x) : ∀ y ∈ s.opened.eraseIdx i, Apart x y := by
  obtain ⟨l₁, l₂, hopened, -, herase⟩ := split_of_getElem? hx
  have ha := h.apart
  rw [hopened, List.pairwise_middle Apart.symm, List.pairwise_cons] at ha
  rw [herase]
  exact ha.1

/-- A transaction goes on. -/
theorem Holds.set (h : I.Holds s) {i : ℕ} {x x' : Tx Row Key Lock Stmt} (hx : s.opened[i]? = some x)
    (howns : x'.Owns sys) (hapart : ∀ y ∈ s.opened.eraseIdx i, Apart x' y)
    (hholds : ∀ T ⊆ {y | y ∈ s.opened.eraseIdx i}, I.holds (merged sys s.db (insert x T)) (insert x T) →
      I.holds (merged sys s.db (insert x' T)) (insert x' T)) :
    I.Holds { s with opened := s.opened.set i x' } := by
  obtain ⟨l₁, l₂, hopened, hset, herase⟩ := split_of_getElem? hx
  have hmem : ∀ {a y : Tx Row Key Lock Stmt}, y ∈ l₁ ++ a :: l₂ ↔ y ∈ a :: (l₁ ++ l₂) := by
    intro a y
    exact List.perm_middle.mem_iff
  refine ⟨fun y hy => ?_, ?_, fun T hT => ?_⟩
  · rcases List.mem_or_eq_of_mem_set hy with hy | rfl
    · exact h.owns y hy
    · exact howns
  · have hold := h.apart
    rw [hopened, List.pairwise_middle Apart.symm, List.pairwise_cons] at hold
    show (s.opened.set i x').Pairwise Apart
    rw [hset, List.pairwise_middle Apart.symm, List.pairwise_cons]
    exact ⟨herase ▸ hapart, hold.2⟩
  · have hsub : T ⊆ {y | y ∈ x' :: (l₁ ++ l₂)} := fun y hy => hmem.mp (by
      have := hT hy
      simpa [hset] using this)
    rw [herase] at hholds
    have hold : ∀ {T' : Set (Tx Row Key Lock Stmt)}, T' ⊆ {y | y ∈ x :: (l₁ ++ l₂)} →
        I.holds (merged sys s.db T') T' := fun hT' => h.holds _ fun y hy => by
      simpa only [hopened, Set.mem_ofPred_eq] using hmem.mpr (hT' hy)
    rcases subset_cases hsub with hT' | ⟨T', hT', rfl⟩
    · exact hold fun y hy => List.mem_cons_of_mem x (hT' hy)
    · refine hholds T' hT' (hold ?_)
      exact Set.insert_subset_iff.mpr ⟨List.mem_cons_self, fun y hy => List.mem_cons_of_mem x (hT' hy)⟩

/-- A transaction owns the versions that it has after a write. -/
theorem owns_write {x : Tx Row Key Lock Stmt} (h : x.Owns sys) (w : Write Row Key) :
    (x.write sys w).Owns sys := by
  intro m hm
  cases w with
  | put r =>
    rcases List.mem_append.mp hm with hm | hm
    · exact List.mem_cons_of_mem _ (h m (List.mem_filter.mp hm).1)
    · exact List.mem_cons.mpr (.inl (by rw [List.mem_singleton.mp hm]))
  | drop k => exact List.mem_cons_of_mem _ (h m (List.mem_filter.mp hm).1)

theorem touched_write (x : Tx Row Key Lock Stmt) (w : Write Row Key) :
    (x.write sys w).touched = sys.keyOf w :: x.touched := by
  cases w <;> rfl

/-- **Every step that meets the condition keeps the invariant.** -/
theorem step (e : Event Req) (h : I.Holds s) (hok : ok s e) (hstep : step sys s e = some s') :
    I.Holds s' := by
  cases e with
  -- a transaction that has written nothing adds no row to any selection
  | start =>
    cases hstep
    refine ⟨fun x hx => ?_, ?_, fun T hT => ?_⟩
    · rcases List.mem_append.mp hx with hx | hx
      · exact h.owns x hx
      · rw [List.mem_singleton.mp hx]
        exact fun m hm => absurd hm List.not_mem_nil
    · refine List.pairwise_append.mpr ⟨h.apart, List.pairwise_singleton _ _, fun x _ y hy k _ => ?_⟩
      rw [List.mem_singleton.mp hy]
      exact List.not_mem_nil
    · have hsub : T ⊆ {y | y ∈ Tx.init :: s.opened} := fun y hy => by
        have := hT hy
        simpa [or_comm] using this
      rcases subset_cases hsub with hT' | ⟨T', hT', rfl⟩
      · exact h.holds T hT'
      · rw [merged_insert_init]
        exact I.start (h.holds T' hT')
  | request i r =>
    obtain ⟨x, hx, htodo, rfl⟩ := step_request hstep
    have hapart := h.apart_of_getElem? hx
    refine h.set hx (h.owns x (List.mem_of_getElem? hx)) (fun y hy => hapart y hy) fun T hT hold => ?_
    have hrows : merged sys s.db (insert { x with todo := sys.script r } T) = merged sys s.db (insert x T) :=
      merged_insert_congr _ _ rfl rfl
    rw [hrows]
    exact I.request r htodo hold
  -- a write is seen in the selections with the transaction, and nobody else has touched its row
  | exec i =>
    obtain ⟨x, st, todo, w, sts, hx, htodo, hexec, hfree, rfl⟩ := step_exec hstep
    have howns := h.owns x (List.mem_of_getElem? hx)
    have hother : ∀ y ∈ s.opened.eraseIdx i, y.Owns sys := fun y hy =>
      h.owns y (List.mem_of_mem_eraseIdx hy)
    cases w with
    | none =>
      refine h.set hx howns (fun y hy => h.apart_of_getElem? hx y hy) fun T hT hold => ?_
      have hrows : merged sys s.db (insert (x.next sys (sys.lock st) none (sts ++ todo)) T) =
          merged sys s.db (insert x T) := merged_insert_congr _ _ rfl rfl
      rw [hrows]
      exact I.exec hx htodo hok hexec hT (by simp) hold
    | some w =>
      have hw := not_touched_of_free hfree
      refine h.set hx (owns_write howns w) (fun y hy k hk => ?_) fun T hT hold => ?_
      · rcases List.mem_cons.mp ((touched_write x w) ▸ hk : k ∈ sys.keyOf w :: x.touched) with rfl | hk
        · exact hw y hy
        · exact h.apart_of_getElem? hx y hy k hk
      · have hwT : ∀ y ∈ T, sys.keyOf w ∉ y.touched := fun y hy => hw y (hT hy)
        have hnext := I.exec hx htodo hok hexec hT (by simpa using hwT) hold
        rw [Option.elim_some, ← merged_write hwT fun y hy => hother y (hT hy)] at hnext
        have hrows : merged sys s.db (insert (x.next sys (sys.lock st) (some w) (sts ++ todo)) T) =
            merged sys s.db (insert (x.write sys w) T) := merged_insert_congr _ _ rfl rfl
        rwa [hrows]
  -- what is committed is what every selection with the transaction saw
  | commit i =>
    obtain ⟨x, hx, htodo, rfl⟩ := step_commit hstep
    have hapart := h.apart_of_getElem? hx
    refine ⟨fun y hy => h.owns y (List.mem_of_mem_eraseIdx hy), h.apart.sublist (List.eraseIdx_sublist _ _),
      fun T hT => ?_⟩
    rw [merged_commit (h.owns x (List.mem_of_getElem? hx)) fun y hy => hapart y (hT hy)]
    refine I.commit htodo (h.holds _ (Set.insert_subset_iff.mpr ⟨List.mem_of_getElem? hx, fun y hy => ?_⟩))
    exact List.mem_of_mem_eraseIdx (hT hy)
  | abort i =>
    rw [step_abort hstep]
    exact ⟨fun y hy => h.owns y (List.mem_of_mem_eraseIdx hy), h.apart.sublist (List.eraseIdx_sublist _ _),
      fun T hT => h.holds T fun y hy => List.mem_of_mem_eraseIdx (hT hy)⟩

/-- **Every run along the condition keeps the invariant.** -/
theorem run {es : List (Event Req)} (h : I.Holds s) (hok : Along (Versions.step sys) ok s es)
    (hrun : Transition.run (Versions.step sys) s es = some s') : I.Holds s' :=
  hok.run (fun _ e _ h hok hstep => step e h hok hstep) h hrun

end Invariant

end Versions
