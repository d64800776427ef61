import Mathlib.Data.Int.Notation
import Mathlib.Data.List.Basic
import Mathlib.Order.Basic
import PgAuthz.Transition.Runs

/-!
# The erasure barrier of the decision log

Sinks insert batches of lines into `decisionlog.decisions`, the console erases subjects and purges
deleted stores, and each sink runs retention. A batch holds an advisory lock shared for its
transaction; an erasure writes a tombstone, a purge its fences, and retention drops what is past the
cutoff, each under the lock taken exclusively. A batch drops the rows of its own that a tombstone or a
fence covers. The deletes of an erasure and of a purge run afterwards with no lock held.

Each statement of these transactions is a step, and a delete takes effect at its commit on the rows
its statement read. Partitions are left out: dropping those before the cutoff and sweeping the default
one removes the rows before the cutoff. The lists of what has been stamped, erased, fenced, purged,
dropped and pruned so far are a history that no step reads.

## Main definitions

* `Line`, `Tombstone`, `Fence`, `Purge`: lines and what covers them
* `Stage`, `Batch`: how far a batch has come
* `Holder`: the transaction that holds the lock exclusively
* `State`, `Step`, `step`: the transition system
-/

namespace PgAuthz.DecisionLog.Barrier

/-! ## Lines and what covers them -/

/-- A subject or resource by type and id. -/
structure Entity where
  type : String
  id : String
deriving DecidableEq, Repr

/-- The columns of a decision line that the deletes read. -/
structure Line where
  ts : ℤ
  store : String
  storeId : Option ℤ
  subjectType : Option String
  subjectId : Option String
  resourceType : Option String
  resourceId : Option String
deriving DecidableEq, Repr

/-- A row of `decisionlog.decisions`. -/
structure Row extends Line where
  id : ℕ
deriving DecidableEq, Repr

/-- The line is about the entity, as its subject or as its resource. -/
def Line.names (l : Line) (x : Entity) : Bool :=
  (l.subjectType = some x.type ∧ l.subjectId = some x.id) ∨
    (l.resourceType = some x.type ∧ l.resourceId = some x.id)

/-- A row of `decisionlog.erasures`. -/
structure Tombstone where
  store : String
  subject : Entity
  erasedAt : ℤ
deriving DecidableEq, Repr

/-- The condition of `applyErasuresSQL`. -/
def Tombstone.covers (t : Tombstone) (l : Line) : Bool :=
  l.store = t.store ∧ l.ts ≤ t.erasedAt ∧ l.names t.subject

/-- A row of `decisionlog.store_fences`; the id 0 is for lines without one. -/
structure Fence where
  store : String
  storeId : ℤ
  purgedAt : ℤ
deriving DecidableEq, Repr

/-- The condition of `applyStoreFencesSQL`. -/
def Fence.covers (f : Fence) (l : Line) : Bool :=
  l.store = f.store ∧ (l.storeId = some f.storeId ∨ (l.storeId = none ∧ l.ts ≤ f.purgedAt))

/-- The arguments of `purgeStore`: the deleted incarnation of a store and its deletion time. -/
structure Purge where
  store : String
  storeId : ℤ
  before : ℤ
deriving DecidableEq, Repr

/-- The lines that `purgeStore` deletes. -/
def Purge.covers (p : Purge) (l : Line) : Bool :=
  l.store = p.store ∧ (l.storeId = some p.storeId ∨ (l.storeId = none ∧ l.ts ≤ p.before))

/-- The upsert of a fence keeps the greater time. -/
def upsertFence (fences : List Fence) (f : Fence) : List Fence :=
  if fences.any fun g => g.store = f.store ∧ g.storeId = f.storeId then
    fences.map fun g =>
      if g.store = f.store ∧ g.storeId = f.storeId then
        { g with purgedAt := max g.purgedAt f.purgedAt } else g
  else fences ++ [f]

/-- A day, in microseconds. -/
def day : ℤ := 86400000000

/-- `retentionCutoffSQL`: the first midnight kept. -/
def retentionCutoff (days : ℕ) (clock : ℤ) : ℤ := clock / day * day - days * day

/-! ## The transition system -/

/-- How far the transaction of a batch has come: it holds the lock; the age check has left its live
lines; it has read the last id; its rows are copied; the tombstones have been applied, and then the
fences, with the committed rows of other batches that these deletes have met. -/
inductive Stage
  | locked
  | dated (live : List Line)
  | numbered (live : List Line) (minId : ℕ)
  | copied (rows : List Row) (minId : ℕ)
  | filtered (rows doomed : List Row) (minId : ℕ)
  | fenced (rows doomed : List Row)
deriving DecidableEq, Repr

/-- A batch with the lines it has taken from a queue. -/
structure Batch where
  lines : List Line
  stage : Stage
deriving DecidableEq, Repr

/-- The transaction that holds the lock exclusively: an erasure before and after its stamp, a purge, or
a retention run before and after it has read the cutoff. -/
inductive Holder
  | erase (store : String) (subject : Entity) (stamp : Option ℤ)
  | purge (p : Purge)
  | retain (cutoff : Option ℤ)
deriving DecidableEq, Repr

/-- An erasure whose tombstone is committed, with the rows its delete has read. -/
structure Erasing where
  tombstone : Tombstone
  doomed : Option (List Row)
deriving DecidableEq, Repr

/-- A purge whose fences are committed, with the rows and the tombstones its deletes have read. -/
structure Purging where
  purge : Purge
  doomed : Option (List Row)
  tombstones : Option (List Tombstone)
deriving DecidableEq, Repr

/-- The tombstones and fences, with their history: the erasures and purges committed so far, the
tombstones dropped by purges, the fences pruned by retention with the cutoff of that run, and the
greatest cutoff so far. -/
structure Bans where
  erasures : List Tombstone
  storeFences : List Fence
  stamped : List Tombstone
  fenced : List Purge
  dropped : List Tombstone
  pruned : List (Fence × ℤ)
  swept : Option ℤ

/-- The decision log: the database clock, the last id, the lines that wait in the queues of the sinks,
the transactions, and the tables. -/
structure State where
  clock : ℤ
  lastId : ℕ
  queue : List Line
  batches : List Batch
  holder : Option Holder
  erasing : List Erasing
  purging : List Purging
  decisions : List Row
  bans : Bans
  erased : List Tombstone
  purged : List Purge

/-- The empty log. -/
def State.init (clock : ℤ) : State :=
  ⟨clock, 0, [], [], none, [], [], [], ⟨[], [], [], [], [], [], none⟩, [], []⟩

/-- The steps: of the clock and the loggers, of a batch, of an erasure, of a purge, and of retention. An
aborted batch goes back to its queue; `release` rolls back the holder of the lock. -/
inductive Step
  | tick (clock : ℤ)
  | decide (line : Line)
  | beginBatch (lines : List Line)
  | checkAge (i : ℕ)
  | readId (i : ℕ)
  | copy (i : ℕ)
  | applyErasures (i : ℕ)
  | applyFences (i : ℕ)
  | commitBatch (i : ℕ)
  | abortBatch (i : ℕ)
  | lockErase (store : String) (subject : Entity)
  | stampErase
  | commitErase
  | readErased (i : ℕ)
  | returnErase (i : ℕ)
  | lockPurge (p : Purge)
  | commitPurge
  | readPurged (i : ℕ)
  | readTombstones (i : ℕ)
  | returnPurge (i : ℕ)
  | lockRetain
  | readCutoff
  | commitRetain
  | release
deriving DecidableEq, Repr

variable (days : ℕ)

/-- The next stage of a batch. -/
def Stage.next (s : State) (b : Batch) : Stage → Step → Option Stage
  | .locked, .checkAge _ =>
    some (.dated (b.lines.filter fun l => days = 0 ∨ retentionCutoff days s.clock ≤ l.ts))
  | .dated live, .readId _ => if live = [] then none else some (.numbered live s.lastId)
  | .copied rows minId, .applyErasures _ =>
    let covered := fun r : Row => decide (minId < r.id) && s.bans.erasures.any (·.covers r.toLine)
    some (.filtered (rows.filter fun r => !covered r) (s.decisions.filter covered) minId)
  | .filtered rows doomed minId, .applyFences _ =>
    let covered := fun r : Row => decide (minId < r.id) && s.bans.storeFences.any (·.covers r.toLine)
    some (.fenced (rows.filter fun r => !covered r) (doomed ++ s.decisions.filter covered))
  | _, _ => none

/-- Lines as rows with the next ids. -/
def numberLines (lastId : ℕ) (live : List Line) : List Row :=
  live.zipIdx.map fun x => ⟨x.1, lastId + 1 + x.2⟩

/-- A step of a batch before its commit. -/
def advance (s : State) (i : ℕ) (e : Step) : Option State := do
  let b ← s.batches[i]?
  let stage ← b.stage.next days s b e
  some { s with batches := s.batches.set i { b with stage } }

/-- The exclusive lock is granted when no transaction holds the lock. -/
def lock (s : State) (h : Holder) : Option State :=
  if s.holder = none ∧ s.batches = [] then some { s with holder := some h } else none

/-- The rows that a delete has not met. -/
def without (rows doomed : List Row) : List Row := rows.filter fun r => r ∉ doomed

/-- One step of the decision log. -/
def step (s : State) : Step → Option State
  | .tick clock => if s.clock ≤ clock then some { s with clock } else none
  | .decide line => some { s with queue := s.queue ++ [line] }
  | .beginBatch lines =>
    if s.holder = none ∧ ∀ l ∈ lines, l ∈ s.queue then
      some { s with queue := s.queue.diff lines, batches := s.batches ++ [⟨lines, .locked⟩] }
    else none
  | .copy i => do
    let b ← s.batches[i]?
    match b.stage with
    | .numbered live minId =>
      some { s with
        lastId := s.lastId + live.length
        batches := s.batches.set i { b with stage := .copied (numberLines s.lastId live) minId } }
    | _ => none
  | .commitBatch i => do
    let b ← s.batches[i]?
    match b.stage with
    | .dated [] => some { s with batches := s.batches.eraseIdx i }
    | .fenced rows doomed =>
      some { s with
        batches := s.batches.eraseIdx i
        decisions := without s.decisions doomed ++ rows }
    | _ => none
  | .abortBatch i => do
    let b ← s.batches[i]?
    some { s with queue := s.queue ++ b.lines, batches := s.batches.eraseIdx i }
  | .lockErase store subject => lock s (.erase store subject none)
  | .stampErase =>
    match s.holder with
    | some (.erase store subject none) =>
      some { s with holder := some (.erase store subject (some s.clock)) }
    | _ => none
  | .commitErase =>
    match s.holder with
    | some (.erase store subject (some stamp)) =>
      let t : Tombstone := ⟨store, subject, stamp⟩
      some { s with
        holder := none
        erasing := s.erasing ++ [⟨t, none⟩]
        bans := { s.bans with
          erasures := s.bans.erasures ++ [t], stamped := s.bans.stamped ++ [t] } }
    | _ => none
  | .readErased i => do
    let e ← s.erasing[i]?
    let doomed := s.decisions.filter fun r =>
      r.store = e.tombstone.store ∧ r.toLine.names e.tombstone.subject
    some { s with erasing := s.erasing.set i { e with doomed := some doomed } }
  | .returnErase i => do
    let e ← s.erasing[i]?
    let doomed ← e.doomed
    some { s with
      erasing := s.erasing.eraseIdx i
      decisions := without s.decisions doomed
      erased := s.erased ++ [e.tombstone] }
  | .lockPurge p => lock s (.purge p)
  | .commitPurge =>
    match s.holder with
    | some (.purge p) =>
      some { s with
        holder := none
        purging := s.purging ++ [⟨p, none, none⟩]
        bans := { s.bans with
          storeFences := upsertFence (upsertFence s.bans.storeFences ⟨p.store, p.storeId, p.before⟩)
            ⟨p.store, 0, p.before⟩
          fenced := s.bans.fenced ++ [p] } }
    | _ => none
  | .readPurged i => do
    let x ← s.purging[i]?
    let doomed := s.decisions.filter fun r => x.purge.covers r.toLine
    some { s with purging := s.purging.set i { x with doomed := some doomed } }
  | .readTombstones i => do
    let x ← s.purging[i]?
    let _ ← x.doomed
    let tombstones := s.bans.erasures.filter fun t =>
      t.store = x.purge.store ∧ t.erasedAt ≤ x.purge.before
    some { s with purging := s.purging.set i { x with tombstones := some tombstones } }
  | .returnPurge i => do
    let x ← s.purging[i]?
    let doomed ← x.doomed
    let tombstones ← x.tombstones
    some { s with
      purging := s.purging.eraseIdx i
      decisions := without s.decisions doomed
      bans := { s.bans with
        erasures := s.bans.erasures.filter fun t => t ∉ tombstones
        dropped := s.bans.dropped ++ tombstones }
      purged := s.purged ++ [x.purge] }
  | .lockRetain => if days = 0 then none else lock s (.retain none)
  | .readCutoff =>
    match s.holder with
    | some (.retain none) =>
      some { s with holder := some (.retain (some (retentionCutoff days s.clock))) }
    | _ => none
  | .commitRetain =>
    match s.holder with
    | some (.retain (some cutoff)) =>
      some { s with
        holder := none
        decisions := s.decisions.filter fun r => cutoff ≤ r.ts
        bans := { s.bans with
          erasures := s.bans.erasures.filter fun t => cutoff ≤ t.erasedAt
          storeFences := s.bans.storeFences.filter fun f => cutoff ≤ f.purgedAt
          pruned := s.bans.pruned ++
            (s.bans.storeFences.filter fun f => f.purgedAt < cutoff).map (·, cutoff)
          swept := some (max cutoff (s.bans.swept.getD cutoff)) } }
    | _ => none
  | .release => if s.holder = none then none else some { s with holder := none }
  | .checkAge i => advance days s i (.checkAge i)
  | .readId i => advance days s i (.readId i)
  | .applyErasures i => advance days s i (.applyErasures i)
  | .applyFences i => advance days s i (.applyFences i)

end PgAuthz.DecisionLog.Barrier
