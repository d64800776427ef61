import PgAuthz.DecisionLog.Entries

/-!
# Lines that cannot be stored

A failed insert puts its whole batch back, and the next flush takes it again. If the insert failed for a
value that no column can hold, it fails again with every line that it is batched with, until the line is
lost from a full channel. The strings of a request come to the columns as they are, so that any caller can
log such a line; while nobody does, no flush fails.

## Main definitions

* `Storable`, `Answers`: what the database accepts
* `Flushes`: a flush that leaves the sink up and its lines in the table
* `LogsPlain`: decisions without a `NUL` are logged

## Main results

* `flushes_along`: while the decisions have no `NUL`, every flush succeeds
-/

namespace PgAuthz

namespace DecisionLog

open Transition

variable {cfg : Config} {s s' : Sink}

/-- The row of a line can be stored. -/
def Storable (l : Line) : Prop :=
  ∀ (e : Entry) (r : Row), l.1 = e.line → parseRow e = some r → r.storable = true

/-- The database is reachable: an insert fails only for a row that cannot be stored, and succeeds only if
each row that it does not refuse as late can be. -/
def Answers (cfg : Config) (s : Sink) : Event → Prop
  | .fail i => ∃ background rows expired,
      s.threads[i]? = some (.flushing background rows expired) ∧ ∃ l ∈ rows, ¬Storable l
  | .insert i clock => ∀ background rows expired,
      s.threads[i]? = some (.flushing background rows expired) →
        ∀ l ∈ rows, cfg.late clock l = false → Storable l
  | _ => True

/-- A write is the line of a decision. -/
def Logs : Event → Prop
  | .write _ chunk => ∃ d : Decision, chunk = written [d.entry]
  | _ => True

/-- A write is the line of a decision in whose entry no string has a `NUL`. -/
def LogsPlain : Event → Prop
  | .write _ chunk => ∃ d : Decision, d.entry.Plain ∧ chunk = written [d.entry]
  | _ => True

/-- The event ends the flush of a thread. -/
def Ends (i : ℕ) : Event → Prop
  | .settle j => j = i
  | .insert j _ => j = i
  | .fail j => j = i
  | _ => False

/-- **The step is no flush that fails**: if it ends one, then the sink is not down, and each line of the
batch that can be stored is in the table, or retention has given it up. -/
def Flushes (cfg : Config) (s : Sink) (e : Event) : Prop :=
  ∀ s' i background rows expired, step cfg s e = some s' → Ends i e →
    s.threads[i]? = some (.flushing background rows expired) →
      s'.down = false ∧ ∀ l ∈ rows, Storable l → l ∈ s'.inserted ∨ l ∈ s'.expired

/-! ## Lines in the hands of a thread -/

/-- A line in the hands of a thread is one of the stream. -/
theorem text_of_held {t : Thread} {l : Line} (hinv : Inv cfg s) (ht : t ∈ s.threads) (hl : l ∈ t.held) :
    l.1 ∈ completeLines s.stream := by
  obtain ⟨b, hb, hended, htaken⟩ := hinv.stream
  have hheld : 0 < (s.threads.flatMap Thread.held).count l :=
    List.count_pos_iff.mpr (List.mem_flatMap.mpr ⟨t, ht, hl⟩)
  have hpos : 0 < s.taken.zipIdx.count l := by
    rw [← hinv.settled, Sink.settled]
    omega
  have htext := List.mem_map_of_mem (f := Prod.fst) (List.count_pos_iff.mp hpos)
  rw [List.zipIdx_map_fst] at htext
  rw [hb, completeLines_append hended, htaken]
  exact List.mem_append_left _ htext

/-- The stream is what the logger has written for decisions without a `NUL`. -/
def Plainly (s : Sink) : Prop := ∃ entries : List Entry, (∀ e ∈ entries, e.Plain) ∧ s.stream = written entries

/-- The line of an entry without a `NUL` can be stored. -/
theorem storable_of_plain {e : Entry} {l : Line} (he : e.Plain) (hl : l.1 = e.line) : Storable l := by
  intro e' r hl' hr
  have hdoc : e.document = e'.document := document_of_line (hl.symm.trans hl')
  apply (storable_parseRow hr).mpr
  rw [← accepts_document, ← hdoc, accepts_document]
  exact he

theorem not_storable {e : Entry} {n : ℕ} (hrow : (parseRow e).isSome = true) (he : ¬e.Plain) :
    ¬Storable (e.line, n) := by
  obtain ⟨r, hr⟩ := Option.isSome_iff_exists.mp hrow
  intro h
  exact he ((storable_parseRow hr).mp (h e r (by dsimp only) hr))

theorem storable_of_held {t : Thread} {l : Line} (hinv : Inv cfg s) (hplain : Plainly s) (ht : t ∈ s.threads)
    (hl : l ∈ t.held) : Storable l := by
  obtain ⟨entries, hentries, hstream⟩ := hplain
  have htext := text_of_held hinv ht hl
  rw [hstream, completeLines_written] at htext
  obtain ⟨e, he, hline⟩ := List.mem_map.mp htext
  exact storable_of_plain (hentries e he) hline.symm

/-! ## Steps -/

/-- What a step does to the stream and to the state of the last insert. -/
structure Frame (s s' : Sink) : Prop where
  stream : s'.stream = s.stream
  down : s.down = false → s'.down = false

theorem Frame.refl (s : Sink) : Frame s s := ⟨rfl, id⟩

theorem frame_offer {i : ℕ} {l : Line} {sent full : Thread} : Frame s (s.offer cfg i l sent full) := by
  unfold Sink.offer
  split
  · exact ⟨rfl, id⟩
  · exact ⟨rfl, id⟩

/-- Only a write adds to the stream, and only a failed insert takes the sink down. -/
theorem frame_of_step {e : Event} (h : step cfg s e = some s') (hwrite : ∀ i chunk, e ≠ .write i chunk)
    (hfail : ∀ i, e ≠ .fail i) : Frame s s' := by
  cases e with
  | write i chunk => exact absurd rfl (hwrite i chunk)
  | fail i => exact absurd rfl (hfail i)
  | take i =>
    simp only [step] at h
    split at h
    · split at h
      · cases h
        exact ⟨rfl, id⟩
      · cases h
        unfold Sink.offer
        split
        · exact ⟨rfl, id⟩
        · exact ⟨rfl, id⟩
    · cases h
  | unlock i =>
    simp only [step] at h
    split at h
    · split at h
      · cases h
        exact ⟨rfl, id⟩
      · cases h
        exact ⟨rfl, id⟩
    · cases h
  | check i =>
    simp only [step] at h
    split at h
    · cases h
      exact ⟨rfl, id⟩
    · cases h
  | receive i =>
    simp only [step] at h
    split at h
    · split at h
      · cases h
        exact ⟨rfl, id⟩
      · cases h
    · cases h
  | leave i =>
    simp only [step] at h
    split at h
    · cases h
      exact ⟨rfl, id⟩
    · cases h
  | flush i now =>
    simp only [step] at h
    split at h
    · split at h
      · cases h
        exact ⟨rfl, id⟩
      · cases h
    · cases h
  | settle i =>
    simp only [step] at h
    split at h
    · cases h
      exact ⟨rfl, id⟩
    · cases h
  | insert i clock =>
    simp only [step] at h
    split at h
    · split at h
      · cases h
        exact ⟨rfl, fun _ => rfl⟩
      · cases h
    · cases h
  | requeue i =>
    simp only [step] at h
    split at h
    · cases h
      exact frame_offer
    · cases h
  | giveUp i =>
    simp only [step] at h
    split at h
    · cases h
      exact ⟨rfl, id⟩
    · cases h
  | stop =>
    cases h
    exact ⟨rfl, id⟩
  | quit i =>
    simp only [step] at h
    split at h
    · cases h
      exact ⟨rfl, id⟩
    · cases h
  | flushLast i =>
    simp only [step] at h
    split at h
    · cases h
      exact ⟨rfl, id⟩
    · cases h

theorem stream_of_write {i : ℕ} {chunk : List UInt8} (h : step cfg s (.write i chunk) = some s') :
    s'.stream = s.stream ++ chunk ∧ s'.down = s.down := by
  simp only [step] at h
  split at h
  · cases h
    exact ⟨rfl, rfl⟩
  · cases h

/-- The sink is up, and what was written has no `NUL`. -/
structure Up (cfg : Config) (s : Sink) : Prop where
  inv : Inv cfg s
  plainly : Plainly s
  down : s.down = false

theorem up_opened (callers : ℕ) : Up cfg (Sink.opened callers) where
  inv := inv_opened callers
  plainly := ⟨[], fun _ he => absurd he List.not_mem_nil, rfl⟩
  down := rfl

/-- No insert fails. -/
theorem Up.not_fail {i : ℕ} (hup : Up cfg s) : ¬Answers cfg s (.fail i) := by
  rintro ⟨background, rows, expired, hi, l, hl, hstorable⟩
  have hheld : l ∈ (Thread.flushing background rows expired).held := List.mem_append_left _ hl
  exact hstorable (storable_of_held hup.inv hup.plainly (List.mem_of_getElem? hi) hheld)

theorem up_step {e : Event} (hup : Up cfg s) (hok : Answers cfg s e ∧ LogsPlain e)
    (h : step cfg s e = some s') : Up cfg s' := by
  have hinv := inv_step s e s' hup.inv h
  by_cases hfail : ∃ i, e = .fail i
  · obtain ⟨i, rfl⟩ := hfail
    exact absurd hok.1 hup.not_fail
  by_cases hwrite : ∃ i chunk, e = .write i chunk
  · obtain ⟨i, chunk, rfl⟩ := hwrite
    have hlogs : ∃ d : Decision, d.entry.Plain ∧ chunk = written [d.entry] := hok.2
    obtain ⟨d, hd, hchunk⟩ := hlogs
    obtain ⟨entries, hentries, hstream⟩ := hup.plainly
    obtain ⟨hadded, hdown⟩ := stream_of_write h
    refine ⟨hinv, ⟨entries ++ [d.entry], ?_, ?_⟩, hdown.trans hup.down⟩
    · intro e he
      rcases List.mem_append.mp he with he | he
      · exact hentries e he
      · rw [List.mem_singleton.mp he]
        exact hd
    · rw [hadded, hstream, hchunk, written, written, written, List.flatMap_append]
  · have hframe := frame_of_step h (fun i chunk he => hwrite ⟨i, chunk, he⟩) fun i he => hfail ⟨i, he⟩
    obtain ⟨entries, hentries, hstream⟩ := hup.plainly
    exact ⟨hinv, ⟨entries, hentries, hframe.stream.trans hstream⟩, hframe.down hup.down⟩

/-- A flush while the sink is up. -/
theorem Up.flushes {e : Event} (hup : Up cfg s) (hok : Answers cfg s e ∧ LogsPlain e) :
    Flushes cfg s e := by
  intro s' i background rows expired h hends hi
  have hdown := (up_step hup hok h).down
  refine ⟨hdown, fun l hl _ => ?_⟩
  cases e with
  | settle j =>
    obtain rfl : j = i := hends
    simp only [step, hi] at h
    split at h
    · rename_i heq
      cases heq
      cases hl
    · cases h
  | insert j clock =>
    obtain rfl : j = i := hends
    simp only [step, hi] at h
    split at h
    · cases h
      by_cases hlate : cfg.late clock l = true
      · exact .inr (List.mem_append_right _ (List.mem_append_right _ (List.mem_filter.mpr ⟨hl, hlate⟩)))
      · exact .inl (List.mem_append_right _ (List.mem_filter.mpr ⟨hl, by simpa using hlate⟩))
    · cases h
  | fail j => exact absurd hok.1 hup.not_fail
  | _ => exact absurd hends id

/-- **No flush fails while the decisions have no `NUL`.** In every run of the sink with a database that
rejects only what it cannot store, in which every line that is written is that of a decision without a
`NUL` in its entry, each flush leaves the sink up and its lines in the table. -/
theorem flushes_along {callers : ℕ} {es : List Event}
    (hok : Along (step cfg) (fun s e => Answers cfg s e ∧ LogsPlain e) (Sink.opened callers) es) :
    Along (step cfg) (Flushes cfg) (Sink.opened callers) es := by
  exact hok.of_inv (fun _ _ _ hup hok h => up_step hup hok h) (fun _ _ hup hok => hup.flushes hok)
    (up_opened callers)

/-! ## A line that wedges its batches -/

/-- A check of a subject, which fails. -/
def checkOf (subject : String) : Decision where
  time := ⟨0, ['t'], by decide⟩
  latency := ⟨['1'], by decide, List.forall_mem_singleton.mpr rfl⟩
  exchange := ⟨"public", "", "", "", "", "", "", "", ""⟩
  endpoint := "check"
  request := ⟨"docs", "user", subject, "view", "doc", "d1", []⟩
  via := "engine"
  outcome := .error "invalid byte sequence"
  provenance := ⟨0, "", "", "", none, none⟩

/-- A sink of two lines. -/
def smallSink : Config := ⟨2, 2, 0, fun _ => some 0⟩

/-- Steps to which the database has nothing to answer. -/
theorem along_of_quiet {logs : Event → Prop} {s : Sink} {es : List Event}
    (h : ∀ e ∈ es, (∀ s, Answers cfg s e) ∧ logs e) :
    Along (step cfg) (fun s e => Answers cfg s e ∧ logs e) s es :=
  (along_of_forall h).mono fun s _ he => ⟨he.1 s, he.2⟩

/-- A decision comes into the batch of the flusher. -/
def logged (d : Decision) : List Event :=
  [.write 1 (written [d.entry]), .take 1, .unlock 1, .check 1, .receive 0]

/-- The caller is idle and writes what the flusher then has in its batch. -/
theorem run_logged {d : Decision} {batch : List Line} (hbatch : batch.length < cfg.batchSize)
    (hroom : 0 < cfg.queueSize) (hthreads : s.threads = [.collecting true batch, .idle])
    (hqueue : s.queue = []) (hpending : s.pending = []) :
    run (step cfg) s (logged d) = some { s with
      threads := [.collecting true (batch ++ [(d.entry.line, s.taken.length)]),
        if s.down then .collecting false [] else .idle]
      stream := s.stream ++ written [d.entry]
      taken := s.taken ++ [d.entry.line] } := by
  have hempty : nextLine [] = none := rfl
  have hwrites : ∀ t ∈ [Thread.collecting true batch, Thread.idle], t.writes = false := by simp [Thread.writes]
  simp [logged, run, step, Sink.moved, Sink.offer, hthreads, hqueue, hpending, hwrites, nextLine_written, hempty,
    line_ne_nil, hroom, hbatch]

/-- The flusher then flushes its batch. -/
theorem run_flushed {d : Decision} {batch : List Line} (hthreads : s.threads = [.collecting true batch, .idle])
    (hbatch : batch.length < 2) (hqueue : s.queue = []) (hpending : s.pending = []) :
    run (step smallSink) s (logged d ++ [.flush 0 0]) = some { s with
      threads := [.flushing true (batch ++ [(d.entry.line, s.taken.length)]) [],
        if s.down then .collecting false [] else .idle]
      stream := s.stream ++ written [d.entry]
      taken := s.taken ++ [d.entry.line] } := by
  refine run_append.mpr ⟨_, run_logged hbatch Nat.two_pos hthreads hqueue hpending, ?_⟩
  cases s.down <;> simp [run, step, Sink.moved, Thread.flushes, smallSink, Config.oldest]

theorem forall_mem_logged {d : Decision} {logs : Event → Prop} (hwrite : logs (.write 1 (written [d.entry])))
    (hlogs : ∀ e, (∀ i chunk, e ≠ .write i chunk) → logs e) :
    ∀ e ∈ logged d, (∀ s, Answers cfg s e) ∧ logs e := by
  intro e he
  simp only [logged, List.mem_cons, List.not_mem_nil, or_false] at he
  rcases he with rfl | rfl | rfl | rfl | rfl
  · exact ⟨fun _ => trivial, hwrite⟩
  all_goals exact ⟨fun _ => trivial, hlogs _ nofun⟩

/-- A decision is logged and inserted. -/
theorem flushes_along_checkOf :
    ((run (step smallSink) (Sink.opened 1) ((logged (checkOf "alice") ++ [.flush 0 0]) ++ [.insert 0 0])).map
      fun s => s.inserted.length) = some 1 ∧
    Along (step smallSink) (Flushes smallSink) (Sink.opened 1)
      ((logged (checkOf "alice") ++ [.flush 0 0]) ++ [.insert 0 0]) := by
  have hplain : (checkOf "alice").entry.Plain := by
    unfold Entry.Plain
    decide +kernel
  have hquiet : Along (step smallSink) (fun s e => Answers smallSink s e ∧ LogsPlain e) (Sink.opened 1)
      (logged (checkOf "alice") ++ [.flush 0 0]) := by
    refine along_append.mpr ⟨along_of_quiet (forall_mem_logged ⟨_, hplain, rfl⟩ fun e he => ?_),
      fun _ _ => ⟨⟨trivial, trivial⟩, fun _ _ => trivial⟩⟩
    cases e with
    | write i chunk => exact absurd rfl (he i chunk)
    | _ => trivial
  have hlogged := run_flushed (d := checkOf "alice") (s := Sink.opened 1) rfl Nat.two_pos rfl rfl
  have hend := run_append.mpr ⟨_, hlogged, (rfl : run (step smallSink) _ [.insert 0 0] = some _)⟩
  refine ⟨by rw [hend]; rfl, flushes_along (along_append.mpr ⟨hquiet, fun s hrun => ?_⟩)⟩
  have hup : Up smallSink s := hquiet.run (fun _ _ _ hup hok h => up_step hup hok h) (up_opened 1) hrun
  refine ⟨⟨fun background rows expired hi l hl _ => ?_, trivial⟩, fun _ _ => trivial⟩
  have hheld : l ∈ (Thread.flushing background rows expired).held := List.mem_append_left _ hl
  exact storable_of_held hup.inv hup.plainly (List.mem_of_getElem? hi) hheld

theorem logs_of_ne_write {e : Event} (he : ∀ i chunk, e ≠ .write i chunk) : Logs e := by
  cases e with
  | write i chunk => exact absurd rfl (he i chunk)
  | _ => trivial

/-- A run up to an insert that fails, as it must. -/
theorem along_fail {es : List Event}
    (h : Along (step cfg) (fun s e => Answers cfg s e ∧ Logs e) (Sink.opened 1) es) {rows : List Line}
    (hrows : (run (step cfg) (Sink.opened 1) es).map (fun s => s.threads[0]?) =
      some (some (.flushing true rows []))) (hl : ∃ l ∈ rows, ¬Storable l) :
    Along (step cfg) (fun s e => Answers cfg s e ∧ Logs e) (Sink.opened 1) (es ++ [.fail 0]) := by
  refine along_append.mpr ⟨h, fun s hrun => ⟨⟨⟨true, rows, [], ?_, hl⟩, trivial⟩, fun _ _ => trivial⟩⟩
  rw [hrun] at hrows
  exact Option.some.inj hrows

/-- A decision with a `NUL` is logged and flushed. -/
def wedging : List Event := logged (checkOf "a\x00b") ++ [Event.flush 0 0]

/-- The line is put back, and flushed with the one of another decision. -/
def wedged : List Event :=
  [Event.requeue 0, .giveUp 0, .receive 0] ++ (logged (checkOf "alice") ++ [Event.flush 0 0])

theorem not_storable_nul : ¬Storable ((checkOf "a\x00b").entry.line, 0) := by
  apply not_storable
  · decide +kernel
  · unfold Entry.Plain
    decide +kernel

/-- **A `NUL` wedges the lines that come after it.** The second flush fails as the first one did: the sink
is down, and the line of `alice`, which can be stored, is not in the table. -/
theorem wedging_fails :
    Along (step smallSink) (fun s e => Answers smallSink s e ∧ Logs e) (Sink.opened 1)
        (((wedging ++ [.fail 0]) ++ wedged) ++ [.fail 0]) ∧
      ((run (step smallSink) (Sink.opened 1) (((wedging ++ [.fail 0]) ++ wedged) ++ [.fail 0])).map
        fun s => (s.down, s.inserted)) = some (true, []) ∧
      ¬Along (step smallSink) (Flushes smallSink) (Sink.opened 1)
        (((wedging ++ [.fail 0]) ++ wedged) ++ [.fail 0]) := by
  -- the line comes back to the channel and into the next batch
  have hwedging := run_flushed (d := checkOf "a\x00b") (s := Sink.opened 1) rfl Nat.two_pos rfl rfl
  have hback := run_append.mpr ⟨_, hwedging, (rfl : run (step smallSink) _ [.fail 0] = some _)⟩
  have hreceived := run_append.mpr ⟨_, hback,
    (rfl : run (step smallSink) _ [.requeue 0, .giveUp 0, .receive 0] = some _)⟩
  have hagain := run_append.mpr ⟨_, hreceived, run_flushed (d := checkOf "alice") rfl Nat.one_lt_two rfl rfl⟩
  rw [List.append_assoc] at hagain
  have hfailed := run_append.mpr ⟨_, hagain, (rfl : run (step smallSink) _ [.fail 0] = some _)⟩
  have hfirst : (run (step smallSink) (Sink.opened 1) wedging).map (fun s => s.threads[0]?) =
      some (some (.flushing true [((checkOf "a\x00b").entry.line, 0)] [])) := by
    rw [wedging, hwedging]
    rfl
  have hsecond : (run (step smallSink) (Sink.opened 1) ((wedging ++ [.fail 0]) ++ wedged)).map
      (fun s => s.threads[0]?) = some (some (.flushing true
        [((checkOf "a\x00b").entry.line, 0), ((checkOf "alice").entry.line, 1)] [])) := by
    rw [wedging, wedged, hagain]
    rfl
  have hend : ((run (step smallSink) (Sink.opened 1) (((wedging ++ [.fail 0]) ++ wedged) ++ [.fail 0])).map
      fun s => (s.down, s.inserted)) = some (true, []) := by
    rw [wedging, wedged, hfailed]
    rfl
  have hlogged : ∀ d s, Along (step smallSink) (fun s e => Answers smallSink s e ∧ Logs e) s
      (logged d ++ [.flush 0 0]) := by
    intro d s
    refine along_append.mpr ⟨along_of_quiet (forall_mem_logged ⟨d, rfl⟩ fun e he => logs_of_ne_write he),
      fun _ _ => ⟨⟨trivial, trivial⟩, fun _ _ => trivial⟩⟩
  have hwedged : ∀ s, Along (step smallSink) (fun s e => Answers smallSink s e ∧ Logs e) s wedged :=
    fun s => along_append.mpr ⟨⟨⟨trivial, trivial⟩, fun _ _ => ⟨⟨trivial, trivial⟩, fun _ _ =>
      ⟨⟨trivial, trivial⟩, fun _ _ => trivial⟩⟩⟩, fun s' _ => hlogged _ s'⟩
  refine ⟨?_, hend, fun h => ?_⟩
  · have hfail := along_fail (hlogged (checkOf "a\x00b") _) hfirst ⟨_, List.mem_singleton_self _, not_storable_nul⟩
    have hmore := along_append.mpr ⟨hfail, fun s _ => hwedged s⟩
    exact along_fail hmore hsecond ⟨_, List.mem_cons_self, not_storable_nul⟩
  · obtain ⟨s', hrun', hdown⟩ := Option.map_eq_some_iff.mp hend
    obtain ⟨s, hrun, hlast⟩ := run_append.mp hrun'
    obtain ⟨s₁, hstep, hnil⟩ := run_cons.mp hlast
    cases hnil
    rw [hrun] at hsecond
    have hflush := ((along_append.mp h).2 s hrun).1 s' 0 true _ [] hstep rfl (Option.some.inj hsecond)
    rw [(Prod.mk.inj hdown).1] at hflush
    exact absurd hflush.1 (by decide)

end DecisionLog

end PgAuthz
