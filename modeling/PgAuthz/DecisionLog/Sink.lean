import Mathlib.Data.Int.Notation
import Mathlib.Data.List.Basic
import PgAuthz.Transition.Runs

/-!
# The queue of the decision log

`PostgresSink` is the writer under the decision logger.  A `Write` hands it a chunk of bytes; complete
lines go into a bounded channel, and what is left waits for the next chunk.  The flusher goroutine takes
lines from the channel into a batch of its own and inserts it when it is full or at a tick.  While the
last insert has failed, a `Write` also flushes on its own thread.  One flush runs at a time.  A failed
flush puts its lines back into the channel, as far as they fit, while other threads fill it.

The goroutines are the threads of a transition system, and each operation on the channel is a step of its
own.  A line carries the number that it has among the lines taken from the buffer; the numbers are not in
the code, which keeps only the bytes, and tell equal lines apart.  The lists of lines that are inserted,
refused, lost and expired stand for the rows of the table, the replies and the two counters.

What an insert does is up to the database: it fails and inserts nothing, or it inserts the batch but for
the lines that its clock finds older than retention.  Partitions are left out; that they cannot be ensured
is a failure of the insert.

## Main definitions

* `completeLines`: the lines of a stream of bytes
* `Thread`, `Sink`: what a goroutine is at, and the sink
* `Event`, `step`: the transition system
* `Sink.places`: the lines by where they are
-/

namespace PgAuthz

namespace DecisionLog

open Transition

/-! ## Lines of a stream of bytes -/

/-- The encodings of the white space that `bytes.TrimSpace` cuts off. -/
def whiteSpace : List (List UInt8) :=
  [[9], [10], [11], [12], [13], [32], [0xC2, 0x85], [0xC2, 0xA0], [0xE1, 0x9A, 0x80], [0xE2, 0x80, 0x80],
    [0xE2, 0x80, 0x81], [0xE2, 0x80, 0x82], [0xE2, 0x80, 0x83], [0xE2, 0x80, 0x84], [0xE2, 0x80, 0x85],
    [0xE2, 0x80, 0x86], [0xE2, 0x80, 0x87], [0xE2, 0x80, 0x88], [0xE2, 0x80, 0x89], [0xE2, 0x80, 0x8A],
    [0xE2, 0x80, 0xA8], [0xE2, 0x80, 0xA9], [0xE2, 0x80, 0xAF], [0xE2, 0x81, 0x9F], [0xE3, 0x80, 0x80]]

/-- The bytes without the encodings of `cuts` that they start with, at most `fuel` of them. -/
def trimStart (cuts : List (List UInt8)) : ℕ → List UInt8 → List UInt8
  | 0, b => b
  | fuel + 1, b =>
    match cuts.find? (·.isPrefixOf b) with
    | none => b
    | some c => trimStart cuts fuel (b.drop c.length)

/-- `bytes.TrimSpace`. -/
def trimSpace (b : List UInt8) : List UInt8 :=
  let b := trimStart whiteSpace b.length b
  (trimStart (whiteSpace.map List.reverse) b.length b.reverse).reverse

/-- The byte that ends a line. -/
def newline : UInt8 := 10

/-- The first complete line of a buffer, trimmed, and the rest of the buffer. -/
def nextLine (b : List UInt8) : Option (List UInt8 × List UInt8) :=
  if newline ∈ b then some (trimSpace (b.takeWhile (· ≠ newline)), (b.dropWhile (· ≠ newline)).tail) else none

/-- The lines of a stream that its last newline completes, trimmed and without the blank ones: `line` is
what has come of the line under way, last byte first. -/
def linesFrom (line : List UInt8) : List UInt8 → List (List UInt8)
  | [] => []
  | c :: b =>
    if c = newline then
      if trimSpace line.reverse = [] then linesFrom [] b else trimSpace line.reverse :: linesFrom [] b
    else linesFrom (c :: line) b

/-- The complete lines of a stream. -/
def completeLines (b : List UInt8) : List (List UInt8) := linesFrom [] b

/-! ## The sink -/

/-- A line and its number among the lines of the sink. -/
abbrev Line := List UInt8 × ℕ

/-- A clock reading, in microseconds. -/
abbrev Time := ℤ

/-- `retentionCutoffAt`, and its twin on the database clock: the first day kept. -/
def cutoff (now : Time) (days : ℕ) : Time := (now / 86400000000 - days) * 86400000000

/-- What the sink is configured with, and the timestamp that `parseRow` finds in a decision line. -/
structure Config where
  queueSize : ℕ
  batchSize : ℕ
  retentionDays : ℕ
  parseRow : List UInt8 → Option Time

/-- What a goroutine is at.  The flusher goroutine is `background`; the others are callers. -/
inductive Thread
  /-- not in the sink -/
  | idle
  /-- in `Write`, holding the write mutex, with the lines that found the channel full -/
  | writing (full : List Line)
  /-- in `Write`, about to look whether the sink is down -/
  | checking
  /-- taking lines from the channel into a batch -/
  | collecting (background : Bool) (batch : List Line)
  /-- in `flushMany`, holding the flush mutex, with the rows to insert and the lines found expired -/
  | flushing (background : Bool) (rows expired : List Line)
  /-- in `flushMany` after a failed insert, with the lines to put back and those that did not fit -/
  | requeueing (background : Bool) (rows lost : List Line)
deriving DecidableEq

namespace Thread

/-- The thread holds the write mutex. -/
def writes : Thread → Bool
  | writing _ => true
  | _ => false

/-- The thread holds the flush mutex. -/
def flushes : Thread → Bool
  | flushing _ _ _ => true
  | requeueing _ _ _ => true
  | _ => false

/-- The thread is the flusher goroutine. -/
def flusher : Thread → Bool
  | collecting background _ => background
  | flushing background _ _ => background
  | requeueing background _ _ => background
  | _ => false

/-- The lines that a thread has in its hands. -/
def held : Thread → List Line
  | idle => []
  | writing full => full
  | checking => []
  | collecting _ batch => batch
  | flushing _ rows expired => rows ++ expired
  | requeueing _ rows lost => rows ++ lost

end Thread

/-- The sink: the channel, the partial line between writes, the goroutines, the state of the last insert,
and the lines that have come to an end. -/
structure Sink where
  queue : List Line
  pending : List UInt8
  threads : List Thread
  down : Bool
  stopped : Bool
  /-- all that has been passed to `Write` -/
  stream : List UInt8
  /-- the lines taken from the buffer, in their order -/
  taken : List (List UInt8)
  inserted : List Line
  /-- the lines of writes that have returned `ErrQueueFull` -/
  refused : List Line
  dropped : List Line
  expired : List Line
  /-- lines that are no decision lines -/
  skipped : List Line
deriving DecidableEq

/-- A sink that has just been opened, with its flusher and any number of callers. -/
def Sink.opened (callers : ℕ) : Sink where
  queue := []
  pending := []
  threads := .collecting true [] :: List.replicate callers .idle
  down := false
  stopped := false
  stream := []
  taken := []
  inserted := []
  refused := []
  dropped := []
  expired := []
  skipped := []

/-! ## Steps -/

/-- What can happen next: the thread that moves, and what comes from outside. -/
inductive Event
  /-- `Write` is called with a chunk -/
  | write (i : ℕ) (chunk : List UInt8)
  /-- `Write` takes the next complete line from the buffer -/
  | take (i : ℕ)
  /-- `Write` finds no complete line and unlocks -/
  | unlock (i : ℕ)
  /-- `Write` looks whether the sink is down -/
  | check (i : ℕ)
  /-- a batch takes a line from the channel -/
  | receive (i : ℕ)
  /-- `flushNow` finds the channel empty and its batch, too -/
  | leave (i : ℕ)
  /-- `flushMany` begins, with a reading of the local clock -/
  | flush (i : ℕ) (now : Time)
  /-- `flushMany` has no row to insert -/
  | settle (i : ℕ)
  /-- the insert succeeds, with a reading of the database clock -/
  | insert (i : ℕ) (clock : Time)
  /-- the insert, or the partitions before it, fail -/
  | fail (i : ℕ)
  /-- a line of a failed batch is put back, or does not fit -/
  | requeue (i : ℕ)
  /-- `flushMany` returns its error -/
  | giveUp (i : ℕ)
  /-- `Close` is called -/
  | stop
  /-- the flusher returns -/
  | quit (i : ℕ)
  /-- `Close` flushes once the flusher has returned -/
  | flushLast (i : ℕ)

namespace Sink

/-- The sink with thread `i` at `t`. -/
def moved (s : Sink) (i : ℕ) (t : Thread) : Sink := { s with threads := s.threads.set i t }

/-- The line is offered to the channel: it goes in, or back to the thread at `full`. -/
def offer (cfg : Config) (s : Sink) (i : ℕ) (line : Line) (sent full : Thread) : Sink :=
  if s.queue.length < cfg.queueSize then
    { s.moved i sent with queue := s.queue ++ [line] }
  else s.moved i full

end Sink

/-- `flushMany`'s first pass over its batch: the decision lines that it keeps, those older than retention by
more than a day on the local clock, and what is no decision line. -/
def Config.oldest (cfg : Config) (now : Time) (line : Line) : Bool :=
  match cfg.parseRow line.1 with
  | none => false
  | some ts => 0 < cfg.retentionDays ∧ ts < cutoff now (cfg.retentionDays + 1)

/-- The lines that an insert refuses: older than retention on the database clock. -/
def Config.late (cfg : Config) (clock : Time) (line : Line) : Bool :=
  match cfg.parseRow line.1 with
  | none => false
  | some ts => 0 < cfg.retentionDays ∧ ts < cutoff clock cfg.retentionDays

/-- The thread that `flushMany` returns to: the flusher collects again, `flushNow` goes on after a success. -/
def returned (background failed : Bool) : Thread :=
  if failed ∧ ¬ background then .idle else .collecting background []

/-- One step of the sink, unless the event cannot happen. -/
def step (cfg : Config) (s : Sink) : Event → Option Sink
  | .write i chunk =>
    if s.threads[i]? = some .idle ∧ ∀ t ∈ s.threads, t.writes = false then
      some { s.moved i (.writing []) with pending := s.pending ++ chunk, stream := s.stream ++ chunk }
    else none
  | .take i =>
    match s.threads[i]?, nextLine s.pending with
    | some (.writing full), some (text, rest) =>
      let s := { s with pending := rest }
      if text = [] then some s
      else
        let line := (text, s.taken.length)
        some ({ s with taken := s.taken ++ [text] }.offer cfg i line (.writing full) (.writing (full ++ [line])))
    | _, _ => none
  | .unlock i =>
    match s.threads[i]?, nextLine s.pending with
    | some (.writing full), none =>
      if full = [] then some (s.moved i .checking)
      else some { s.moved i .idle with refused := s.refused ++ full }
    | _, _ => none
  | .check i =>
    match s.threads[i]? with
    | some .checking => some (s.moved i (if s.down then .collecting false [] else .idle))
    | _ => none
  | .receive i =>
    match s.threads[i]?, s.queue with
    | some (.collecting background batch), line :: queue =>
      if batch.length < cfg.batchSize then
        some { s.moved i (.collecting background (batch ++ [line])) with queue }
      else none
    | _, _ => none
  | .leave i =>
    if s.threads[i]? = some (.collecting false []) ∧ s.queue = [] then some (s.moved i .idle) else none
  | .flush i now =>
    match s.threads[i]? with
    | some (.collecting background batch) =>
      -- the flusher flushes a full batch, or any at a tick; `flushNow` flushes what it has drained
      if batch ≠ [] ∧ (background = true ∨ batch.length = cfg.batchSize ∨ s.queue = []) ∧
          ∀ t ∈ s.threads, t.flushes = false then
        let lines := batch.filter fun l => (cfg.parseRow l.1).isSome
        some { s.moved i (.flushing background (lines.filter fun l => ¬ cfg.oldest now l)
          (lines.filter (cfg.oldest now)))
          with skipped := s.skipped ++ batch.filter fun l => ¬ (cfg.parseRow l.1).isSome }
      else none
    | _ => none
  | .settle i =>
    match s.threads[i]? with
    | some (.flushing background [] expired) =>
      some { s.moved i (returned background false) with expired := s.expired ++ expired }
    | _ => none
  | .insert i clock =>
    match s.threads[i]? with
    | some (.flushing background rows expired) =>
      if rows ≠ [] then
        some { s.moved i (returned background false) with
          inserted := s.inserted ++ rows.filter fun l => ¬ cfg.late clock l
          expired := s.expired ++ (expired ++ rows.filter (cfg.late clock))
          down := false }
      else none
    | _ => none
  | .fail i =>
    match s.threads[i]? with
    | some (.flushing background rows expired) =>
      if rows ≠ [] then
        some { s.moved i (.requeueing background rows []) with expired := s.expired ++ expired, down := true }
      else none
    | _ => none
  | .requeue i =>
    match s.threads[i]? with
    | some (.requeueing background (line :: rows) lost) =>
      some (s.offer cfg i line (.requeueing background rows lost) (.requeueing background rows (lost ++ [line])))
    | _ => none
  | .giveUp i =>
    match s.threads[i]? with
    | some (.requeueing background [] lost) =>
      some { s.moved i (returned background true) with dropped := s.dropped ++ lost }
    | _ => none
  | .stop => some { s with stopped := true }
  | .quit i =>
    if s.threads[i]? = some (.collecting true []) ∧ s.stopped = true then some (s.moved i .idle) else none
  | .flushLast i =>
    if s.threads[i]? = some .idle ∧ s.stopped = true ∧ ∀ t ∈ s.threads, t.flusher = false then
      some (s.moved i (.collecting false []))
    else none

/-- The lines of the buffer that the write under way has still to take, with their numbers. -/
def Sink.waiting (s : Sink) : List Line := (completeLines s.pending).zipIdx s.taken.length

/-- The lines that have been passed to the sink, by where they are: in the table, in the channel, with a
thread, refused, lost, expired or still to be taken. -/
def Sink.places (s : Sink) : List Line :=
  s.inserted ++ s.queue ++ s.threads.flatMap Thread.held ++ s.refused ++ s.dropped ++ s.expired ++ s.waiting

end DecisionLog

end PgAuthz
