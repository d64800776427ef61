import Mathlib.Logic.Relation
import Mathlib.Order.Defs.PartialOrder
import PgAuthz.Transition.Runs

/-!
# Transactions that run scripts under locks

A transaction serves requests, each of which runs as a script of statements. A statement first takes
its lock, for which it waits while another open transaction holds a conflicting one; it then reads
the committed database with the changes of its own transaction over it. It may fail, and it may send
further statements before the ones that are left: what a script does next can depend on what it has
read. A commit makes the changes visible; it and an abort release all locks of the transaction.

## Main definitions

* `System`, `step`: scripts, statements, and the transition system of the transactions
* `Waits`, `Deadlock`: a transaction waits for a lock that another one holds, and a cycle of them
* `Invariant`: what has to be shown of the steps of one transaction, and of a commit beside it

## Main results

* `Invariant.run`: every run keeps an invariant
* `not_deadlock_of_rank`: waits that lead upwards form no cycle
-/

namespace Scripts

open Transition

variable {Lock Change D Stmt Req : Type}

/-- Requests that run as scripts: the locks that conflict, what a change does to the database, the
script of a request, the lock that a statement takes, and the changes and the further statements of
a statement on the database it sees, unless it fails. -/
structure System (Lock Change D Stmt Req : Type) where
  conflicts : Lock → Lock → Bool
  conflicts_comm : ∀ a b, conflicts a b = conflicts b a
  apply : D → Change → D
  script : Req → List Stmt
  lock : Stmt → Option Lock
  exec : Req → Stmt → D → Option (List Change × List Stmt)

/-- An open transaction: its locks, its changes, the statements of the running request that are
left, and its requests, the latest one first. -/
structure Tx (Lock Change Stmt Req : Type) where
  held : List Lock
  changes : List Change
  todo : List Stmt
  requests : List Req

/-- The committed database and the open transactions. -/
structure State (Lock Change D Stmt Req : Type) where
  db : D
  opened : List (Tx Lock Change Stmt Req)

/-- What can happen next. A transaction is named by its place among the open ones. -/
inductive Event (Req : Type)
  | start
  | request (i : ℕ) (r : Req)
  | exec (i : ℕ)
  | commit (i : ℕ)
  | abort (i : ℕ)

/-- A transaction before its first request. -/
def Tx.init : Tx Lock Change Stmt Req := ⟨[], [], [], []⟩

/-- The state before any transaction. -/
def State.init (d : D) : State Lock Change D Stmt Req := ⟨d, []⟩

/-- The database as a transaction sees it. -/
def System.view (sys : System Lock Change D Stmt Req) (d : D) (x : Tx Lock Change Stmt Req) : D :=
  x.changes.foldl sys.apply d

/-- A transaction that sends a request. -/
def Tx.send (sys : System Lock Change D Stmt Req) (x : Tx Lock Change Stmt Req) (r : Req) :
    Tx Lock Change Stmt Req :=
  { x with todo := sys.script r, requests := r :: x.requests }

/-- A transaction after a statement: its lock, its changes, and the statements that are left. -/
def Tx.next (x : Tx Lock Change Stmt Req) (lock : Option Lock) (chs : List Change)
    (todo : List Stmt) : Tx Lock Change Stmt Req :=
  { x with held := x.held ++ lock.toList, changes := x.changes ++ chs, todo := todo }

/-- The statement takes no lock that conflicts with one of the transactions. -/
def System.free (sys : System Lock Change D Stmt Req) (others : List (Tx Lock Change Stmt Req))
    (st : Stmt) : Bool :=
  others.all fun y => y.held.all fun b => (sys.lock st).all fun a => !sys.conflicts a b

/-- The next state, unless the event cannot happen. -/
def step (sys : System Lock Change D Stmt Req) (s : State Lock Change D Stmt Req) :
    Event Req → Option (State Lock Change D Stmt Req)
  | .start => some { s with opened := s.opened ++ [Tx.init] }
  | .request i r => s.opened[i]?.bind fun x =>
    -- the next request is sent after the one before it has returned
    if x.todo.isEmpty then some { s with opened := s.opened.set i (x.send sys r) } else none
  | .exec i => s.opened[i]?.bind fun x =>
    match x.todo, x.requests with
    | st :: todo, r :: _ =>
      if sys.free (s.opened.eraseIdx i) st then
        (sys.exec r st (sys.view s.db x)).map fun res =>
          { s with opened := s.opened.set i (x.next (sys.lock st) res.1 (res.2 ++ todo)) }
      else none
    | _, _ => none
  | .commit i => s.opened[i]?.bind fun x =>
    if x.todo.isEmpty then some ⟨sys.view s.db x, s.opened.eraseIdx i⟩ else none
  | .abort i => s.opened[i]?.map fun _ => { s with opened := s.opened.eraseIdx i }

/-! ## What a step can do -/

section Steps

variable {sys : System Lock Change D Stmt Req} {s s' : State Lock Change D Stmt Req} {i : ℕ}

theorem step_request {r : Req} (h : step sys s (.request i r) = some s') :
    ∃ x, s.opened[i]? = some x ∧ x.todo = [] ∧
      s' = { s with opened := s.opened.set i (x.send sys r) } := by
  obtain ⟨x, hx, h⟩ := Option.bind_eq_some_iff.mp h
  split at h
  · rename_i htodo
    exact ⟨x, hx, List.isEmpty_iff.mp htodo, (Option.some.inj h).symm⟩
  · cases h

theorem step_exec (h : step sys s (.exec i) = some s') :
    ∃ x st todo r rs chs sts, s.opened[i]? = some x ∧ x.todo = st :: todo ∧ x.requests = r :: rs ∧
      sys.free (s.opened.eraseIdx i) st = true ∧
      sys.exec r st (sys.view s.db x) = some (chs, sts) ∧
      s' = { s with opened := s.opened.set i (x.next (sys.lock st) chs (sts ++ todo)) } := by
  obtain ⟨x, hx, h⟩ := Option.bind_eq_some_iff.mp h
  split at h
  · rename_i st todo r rs htodo hreq
    split at h
    · rename_i hfree
      obtain ⟨⟨chs, sts⟩, hexec, rfl⟩ := Option.map_eq_some_iff.mp h
      exact ⟨x, st, todo, r, rs, chs, sts, hx, htodo, hreq, hfree, hexec, rfl⟩
    · cases h
  · cases h

theorem step_commit (h : step sys s (.commit i) = some s') :
    ∃ x, s.opened[i]? = some x ∧ x.todo = [] ∧ s' = ⟨sys.view s.db x, s.opened.eraseIdx i⟩ := by
  obtain ⟨x, hx, h⟩ := Option.bind_eq_some_iff.mp h
  split at h
  · rename_i htodo
    exact ⟨x, hx, List.isEmpty_iff.mp htodo, (Option.some.inj h).symm⟩
  · cases h

theorem step_abort (h : step sys s (.abort i) = some s') :
    s' = { s with opened := s.opened.eraseIdx i } := by
  obtain ⟨x, -, rfl⟩ := Option.map_eq_some_iff.mp h
  rfl

end Steps

/-! ## Waiting -/

/-- A transaction waits for a lock that another one holds. -/
def Waits (sys : System Lock Change D Stmt Req) (s : State Lock Change D Stmt Req) (i j : ℕ) : Prop :=
  i ≠ j ∧ ∃ x y st a b, s.opened[i]? = some x ∧ s.opened[j]? = some y ∧ x.todo.head? = some st ∧
    sys.lock st = some a ∧ b ∈ y.held ∧ sys.conflicts a b = true

/-- A cycle of transactions each of which waits for the next one. -/
def Deadlock (sys : System Lock Change D Stmt Req) (s : State Lock Change D Stmt Req) : Prop :=
  ∃ i, Relation.TransGen (Waits sys s) i i

/-- **Waits that lead upwards form no cycle**: it is enough to compare two transactions that both
wait. -/
theorem not_deadlock_of_rank {sys : System Lock Change D Stmt Req}
    {s : State Lock Change D Stmt Req} {R : Type} [Preorder R] (rank : ℕ → R)
    (h : ∀ i j k, Waits sys s i j → Waits sys s j k → rank i < rank j) : ¬ Deadlock sys s := by
  have key : ∀ {i j}, Relation.TransGen (Waits sys s) i j → ∀ k, Waits sys s j k →
      rank i < rank j := by
    intro i j hij
    induction hij with
    | single hij => exact fun k hk => h _ _ k hij hk
    | tail _ hjk ih => exact fun k hk => lt_trans (ih _ hjk) (h _ _ k hjk hk)
  rintro ⟨i, hcycle⟩
  obtain ⟨k, hik, -⟩ := Relation.TransGen.head'_iff.mp hcycle
  exact lt_irrefl _ (key hcycle k hik)

/-! ## Invariants -/

/-- No lock of one transaction conflicts with one of the other. -/
def System.Compatible (sys : System Lock Change D Stmt Req) (x y : Tx Lock Change Stmt Req) : Prop :=
  ∀ a ∈ x.held, ∀ b ∈ y.held, sys.conflicts a b = false

theorem System.Compatible.symm {sys : System Lock Change D Stmt Req}
    {x y : Tx Lock Change Stmt Req} (h : sys.Compatible x y) : sys.Compatible y x :=
  fun a ha b hb => (sys.conflicts_comm a b).trans (h b hb a ha)

/-- A property of the committed database and one of every open transaction over it, such that they
follow from themselves over the steps that meet the condition `ok`: the steps of the transaction
itself, and the commits of another one with compatible locks. -/
structure Invariant (sys : System Lock Change D Stmt Req)
    (ok : State Lock Change D Stmt Req → Event Req → Prop) where
  db : D → Prop
  tx : D → Tx Lock Change Stmt Req → Prop
  start : ∀ {d}, db d → tx d Tx.init
  request : ∀ {s i x r}, s.opened[i]? = some x → db s.db → tx s.db x → x.todo = [] →
    ok s (.request i r) → tx s.db (x.send sys r)
  exec : ∀ {s i x st todo r rs chs sts}, s.opened[i]? = some x → db s.db → tx s.db x →
    x.todo = st :: todo → x.requests = r :: rs → ok s (.exec i) →
    sys.exec r st (sys.view s.db x) = some (chs, sts) →
    tx s.db (x.next (sys.lock st) chs (sts ++ todo))
  commit : ∀ {s i x}, s.opened[i]? = some x → db s.db → tx s.db x → x.todo = [] →
    ok s (.commit i) → db (sys.view s.db x)
  beside : ∀ {s i x y}, s.opened[i]? = some x → db s.db → tx s.db x → x.todo = [] →
    ok s (.commit i) → y ∈ s.opened.eraseIdx i → tx s.db y → sys.Compatible x y →
    tx (sys.view s.db x) y

namespace Invariant

variable {sys : System Lock Change D Stmt Req}
  {ok : State Lock Change D Stmt Req → Event Req → Prop} {s s' : State Lock Change D Stmt Req}

/-- The invariant holds in a state, and the locks of the open transactions are compatible. -/
structure Holds (I : Invariant sys ok) (s : State Lock Change D Stmt Req) : Prop where
  db : I.db s.db
  tx : ∀ x ∈ s.opened, I.tx s.db x
  compatible : s.opened.Pairwise sys.Compatible

variable {I : Invariant sys ok}

theorem holds_init {d : D} (h : I.db d) : I.Holds (State.init d) where
  db := h
  tx := by simp [State.init]
  compatible := List.Pairwise.nil

/-- An open transaction is compatible with the others. -/
theorem Holds.compatible_of_getElem? (h : I.Holds s) {i : ℕ} {x : Tx Lock Change Stmt Req}
    (hx : s.opened[i]? = some x) : ∀ y ∈ s.opened.eraseIdx i, sys.Compatible x y := by
  obtain ⟨l₁, l₂, hopened, -, herase⟩ := split_of_getElem? hx
  have hc := h.compatible
  rw [hopened, List.pairwise_middle System.Compatible.symm, List.pairwise_cons] at hc
  rw [herase]
  exact hc.1

/-- Two transactions at different places are compatible. -/
theorem Holds.compatible_of_ne (h : I.Holds s) {i j : ℕ} {x y : Tx Lock Change Stmt Req}
    (hx : s.opened[i]? = some x) (hy : s.opened[j]? = some y) (hij : i ≠ j) :
    sys.Compatible x y := by
  refine h.compatible_of_getElem? hx y (List.mem_iff_getElem?.mpr ?_)
  rcases Nat.lt_or_ge j i with hj | hj
  · exact ⟨j, by rw [List.getElem?_eraseIdx_of_lt hj, hy]⟩
  · refine ⟨j - 1, ?_⟩
    rw [List.getElem?_eraseIdx_of_ge (by omega), Nat.sub_add_cancel (by omega), hy]

/-- A transaction goes on. -/
theorem Holds.set (h : I.Holds s) {i : ℕ} {x x' : Tx Lock Change Stmt Req}
    (hx : s.opened[i]? = some x) (hinv : I.tx s.db x')
    (hc : ∀ y ∈ s.opened.eraseIdx i, sys.Compatible x' y) :
    I.Holds { s with opened := s.opened.set i x' } := by
  obtain ⟨l₁, l₂, hopened, hset, herase⟩ := split_of_getElem? hx
  refine { h with tx := ?_, compatible := ?_ }
  · intro y hy
    rcases List.mem_or_eq_of_mem_set hy with hmem | rfl
    · exact h.tx y hmem
    · exact hinv
  · have hold := h.compatible
    rw [hopened, List.pairwise_middle System.Compatible.symm, List.pairwise_cons] at hold
    show (s.opened.set i x').Pairwise sys.Compatible
    rw [hset, List.pairwise_middle System.Compatible.symm, List.pairwise_cons]
    exact ⟨herase ▸ hc, hold.2⟩

/-- The locks after a statement are compatible with those of the others. -/
theorem compatible_next {x : Tx Lock Change Stmt Req} {others : List (Tx Lock Change Stmt Req)}
    {st : Stmt} {chs : List Change} {todo : List Stmt}
    (hc : ∀ y ∈ others, sys.Compatible x y) (hfree : sys.free others st = true) :
    ∀ y ∈ others, sys.Compatible (x.next (sys.lock st) chs todo) y := by
  intro y hy a ha b hb
  rcases List.mem_append.mp ha with ha | ha
  · exact hc y hy a ha b hb
  · have hall := List.all_eq_true.mp (List.all_eq_true.mp hfree y hy) b hb
    rw [Option.mem_toList.mp ha] at hall
    simpa using hall

/-- **Every step that meets the condition keeps the invariant.** -/
theorem step (e : Event Req) (h : I.Holds s) (hok : ok s e) (hstep : step sys s e = some s') :
    I.Holds s' := by
  cases e with
  | start =>
    cases hstep
    refine { h with tx := ?_, compatible := ?_ }
    · intro x hx
      rcases List.mem_append.mp hx with hx | hx
      · exact h.tx x hx
      · rw [List.mem_singleton.mp hx]
        exact I.start h.db
    · refine List.pairwise_append.mpr ⟨h.compatible, List.pairwise_singleton _ _, ?_⟩
      intro x _ y hy a _ b hb
      rw [List.mem_singleton.mp hy] at hb
      cases hb
  | request i r =>
    obtain ⟨x, hx, htodo, rfl⟩ := step_request hstep
    exact h.set hx (I.request hx h.db (h.tx x (List.mem_of_getElem? hx)) htodo hok)
      fun y hy a ha b hb => h.compatible_of_getElem? hx y hy a ha b hb
  | exec i =>
    obtain ⟨x, st, todo, r, rs, chs, sts, hx, htodo, hreq, hfree, hexec, rfl⟩ := step_exec hstep
    exact h.set hx
      (I.exec hx h.db (h.tx x (List.mem_of_getElem? hx)) htodo hreq hok hexec)
      (compatible_next (h.compatible_of_getElem? hx) hfree)
  | commit i =>
    obtain ⟨x, hx, htodo, rfl⟩ := step_commit hstep
    have hinv := h.tx x (List.mem_of_getElem? hx)
    refine ⟨I.commit hx h.db hinv htodo hok, fun y hy => ?_,
      h.compatible.sublist (List.eraseIdx_sublist _ _)⟩
    exact I.beside hx h.db hinv htodo hok hy (h.tx y (List.mem_of_mem_eraseIdx hy))
      (h.compatible_of_getElem? hx y hy)
  | abort i =>
    rw [step_abort hstep]
    exact ⟨h.db, fun y hy => h.tx y (List.mem_of_mem_eraseIdx hy),
      h.compatible.sublist (List.eraseIdx_sublist _ _)⟩

/-- **Every run along the condition keeps the invariant.** -/
theorem run {es : List (Event Req)} (h : I.Holds s) (hok : Along (Scripts.step sys) ok s es)
    (hrun : Transition.run (Scripts.step sys) s es = some s') : I.Holds s' :=
  hok.run (fun _ e _ h hok hstep => step e h hok hstep) h hrun

end Invariant

end Scripts
