import PgAuthz.Transition.Runs
import Mathlib.Data.List.Infix
import Mathlib.Logic.Function.Basic

/-!
# Replicated logs and their timelines

A primary appends records to its log, and standbys replay what they receive of it. A standby that is
promoted starts a timeline of its own, at the position it has replayed, and what the old primary logged
beyond that position is not part of it. A position in a log says nothing without its timeline.

## Main definitions

* `Server`, `Cluster`: the servers with their logs, and the log of every timeline
* `Move`, `move`: append, replay, follow a timeline, lose the connection, promote
* `WellFormed`: every server has a part of the log of its timeline, and a primary has all of it
* `Grown`: nothing that was logged is gone
* `Covered`: a log has everything up to a position of a timeline

## Main results

* `move_wellFormed`, `grown_of_move`: a move keeps a cluster well formed, and logs only grow
* `WellFormed.covered`: a server on a timeline that has come to a position has everything up to it
-/

namespace Replication

open Transition

variable {N R : Type}

/-- A server: its log, the timeline of the log, and whether it is a standby. A standby knows its
timeline while it is connected. `replayed` is the last position of its replay, and stays what it is
after a promotion. -/
structure Server (R : Type) where
  log : List R
  timeline : ℕ
  standby : Bool
  connected : Bool
  replayed : ℕ

/-- The servers, what has been logged on every timeline from the first record on, and the number of the
next timeline. -/
structure Cluster (N R : Type) where
  server : N → Server R
  line : ℕ → List R
  next : ℕ

/-- What servers do. -/
inductive Move (N R : Type)
  | append (n : N) (r : R)
  | replay (n : N) (r : R)
  | follow (n : N) (timeline : ℕ)
  | disconnect (n : N)
  | promote (n : N)
deriving DecidableEq, Repr

/-- The primary's log with one more record. -/
def Server.append (σ : Server R) (r : R) : Server R := { σ with log := σ.log ++ [r] }

/-- The standby after replaying a record. -/
def Server.replay (σ : Server R) (r : R) : Server R :=
  { σ with log := σ.log ++ [r], replayed := σ.log.length + 1 }

/-- The standby on another timeline. -/
def Server.follow (σ : Server R) (timeline : ℕ) : Server R :=
  { σ with timeline := timeline, connected := true }

/-- The standby without its connection. -/
def Server.disconnect (σ : Server R) : Server R := { σ with connected := false }

/-- The standby as the primary of a timeline. -/
def Server.promote (σ : Server R) (timeline : ℕ) : Server R :=
  { σ with timeline := timeline, standby := false, connected := false }

/-- The server of a move. -/
def Move.actor : Move N R → N
  | append n _ | replay n _ | follow n _ | disconnect n | promote n => n

/-- What a move makes of its server. -/
def Cluster.acted (c : Cluster N R) : Move N R → Server R
  | .append n r => (c.server n).append r
  | .replay n r => (c.server n).replay r
  | .follow n timeline => (c.server n).follow timeline
  | .disconnect n => (c.server n).disconnect
  | .promote n => (c.server n).promote c.next

section Moves

variable [DecidableEq N] [DecidableEq R]

/-- One move. A standby replays what its timeline has next, and follows only a timeline that has all of
what it has replayed. -/
def move (c : Cluster N R) : Move N R → Option (Cluster N R)
  | .append n r =>
    if (c.server n).standby then none
    else some { c with
      server := Function.update c.server n ((c.server n).append r)
      line := Function.update c.line (c.server n).timeline ((c.server n).log ++ [r]) }
  | .replay n r =>
    if (c.server n).standby ∧ (c.server n).log ++ [r] <+: c.line (c.server n).timeline then
      some { c with server := Function.update c.server n ((c.server n).replay r) }
    else none
  | .follow n timeline =>
    if (c.server n).standby ∧ timeline < c.next ∧ (c.server n).log <+: c.line timeline then
      some { c with server := Function.update c.server n ((c.server n).follow timeline) }
    else none
  | .disconnect n =>
    if (c.server n).standby then
      some { c with server := Function.update c.server n (c.server n).disconnect }
    else none
  | .promote n =>
    if (c.server n).standby then
      some {
        server := Function.update c.server n ((c.server n).promote c.next)
        line := Function.update c.line c.next (c.server n).log
        next := c.next + 1 }
    else none

end Moves

/-- A server fits the logs of the timelines: it has a part of the log of its own, and all of it if it is
a primary. -/
structure Fits (line : ℕ → List R) (next : ℕ) (σ : Server R) : Prop where
  timeline_lt : σ.timeline < next
  log_le : σ.log <+: line σ.timeline
  primary : σ.standby = false → σ.log = line σ.timeline
  replayed : σ.standby = true → σ.replayed = σ.log.length
  replayed_le : σ.replayed ≤ σ.log.length

/-- Every server fits, and no timeline has two primaries. -/
structure WellFormed (c : Cluster N R) : Prop where
  fits : ∀ n, Fits c.line c.next (c.server n)
  unused : ∀ t, c.next ≤ t → c.line t = []
  sole : ∀ m n, (c.server m).standby = false → (c.server n).standby = false →
    (c.server m).timeline = (c.server n).timeline → m = n

/-- Nothing that was logged is gone. -/
structure Grown (c c' : Cluster N R) : Prop where
  line : ∀ t, c.line t <+: c'.line t
  log : ∀ n, (c.server n).log <+: (c'.server n).log

theorem Grown.refl (c : Cluster N R) : Grown c c := ⟨fun _ => List.prefix_rfl, fun _ => List.prefix_rfl⟩

theorem Grown.trans {a b c : Cluster N R} (h : Grown a b) (h' : Grown b c) : Grown a c :=
  ⟨fun t => (h.line t).trans (h'.line t), fun n => (h.log n).trans (h'.log n)⟩

/-- The log has everything up to the position of the timeline, and the timeline has come that far. -/
structure Covered (c : Cluster N R) (timeline position : ℕ) (log : List R) : Prop where
  reached : position ≤ (c.line timeline).length
  logged : (c.line timeline).take position <+: log

/-! ## Positions -/

section Positions

variable {c c' : Cluster N R} {timeline position : ℕ} {log log' : List R}

/-- What is before a position does not change. -/
theorem take_of_isPrefix {l l' : List R} (h : l <+: l') {k : ℕ} (hk : k ≤ l.length) : l'.take k = l.take k := by
  obtain ⟨rest, rfl⟩ := h
  exact List.take_append_of_le_length hk

theorem Covered.of_le (h : Covered c timeline position log) {k : ℕ} (hk : k ≤ position) :
    Covered c timeline k log :=
  ⟨hk.trans h.reached, (List.take_prefix_take_left hk).trans h.logged⟩

theorem Covered.mono (h : Covered c timeline position log) (hc : Grown c c') (hlog : log <+: log') :
    Covered c' timeline position log' := by
  refine ⟨h.reached.trans (hc.line timeline).length_le, ?_⟩
  rw [take_of_isPrefix (hc.line timeline) h.reached]
  exact h.logged.trans hlog

/-- **A server that has come to a position of its timeline has everything up to it.** -/
theorem WellFormed.covered (hc : WellFormed c) {n : N} (ht : (c.server n).timeline = timeline)
    (hp : position ≤ (c.server n).log.length) : Covered c timeline position (c.server n).log := by
  have hlog := (hc.fits n).log_le
  rw [ht] at hlog
  refine ⟨hp.trans hlog.length_le, ?_⟩
  rw [take_of_isPrefix hlog hp]
  exact List.take_prefix _ _

end Positions

/-! ## Moves keep clusters well formed -/

/-- A move only adds to the log of its server. -/
theorem log_acted (c : Cluster N R) (m : Move N R) : (c.server m.actor).log <+: (c.acted m).log := by
  cases m with
  | append n r => exact List.prefix_append _ _
  | replay n r => exact List.prefix_append _ _
  | follow n timeline => exact List.prefix_rfl
  | disconnect n => exact List.prefix_rfl
  | promote n => exact List.prefix_rfl

section Servers

variable {line : ℕ → List R} {next : ℕ} {σ : Server R}

/-- Another timeline has a new log. -/
theorem Fits.update_line (h : Fits line next σ) {t next' : ℕ} {log : List R} (ht : σ.timeline ≠ t)
    (hnext : next ≤ next') : Fits (Function.update line t log) next' σ where
  timeline_lt := h.timeline_lt.trans_le hnext
  log_le := by simpa [ht] using h.log_le
  primary hσ := by simpa [ht] using h.primary hσ
  replayed := h.replayed
  replayed_le := h.replayed_le

/-- The timeline of a standby goes on. -/
theorem Fits.extend_line (h : Fits line next σ) (hσ : σ.standby = true) {log : List R}
    (hlog : line σ.timeline <+: log) : Fits (Function.update line σ.timeline log) next σ where
  timeline_lt := h.timeline_lt
  log_le := by simpa using h.log_le.trans hlog
  primary hprimary := by simp [hσ] at hprimary
  replayed := h.replayed
  replayed_le := h.replayed_le

theorem Fits.append (h : Fits line next σ) (hσ : σ.standby = false) (r : R) :
    Fits (Function.update line σ.timeline (σ.log ++ [r])) next (σ.append r) where
  timeline_lt := h.timeline_lt
  log_le := by simp [Server.append]
  primary _ := by simp [Server.append]
  replayed hstandby := by simp [Server.append, hσ] at hstandby
  replayed_le := by
    have := h.replayed_le
    simp only [Server.append, List.length_append]
    omega

theorem Fits.replay (h : Fits line next σ) (hσ : σ.standby = true) {r : R}
    (hlog : σ.log ++ [r] <+: line σ.timeline) : Fits line next (σ.replay r) where
  timeline_lt := h.timeline_lt
  log_le := hlog
  primary hprimary := by simp [Server.replay, hσ] at hprimary
  replayed _ := by simp [Server.replay]
  replayed_le := by simp [Server.replay]

theorem Fits.follow (h : Fits line next σ) (hσ : σ.standby = true) {t : ℕ} (ht : t < next)
    (hlog : σ.log <+: line t) : Fits line next (σ.follow t) where
  timeline_lt := ht
  log_le := hlog
  primary hprimary := by simp [Server.follow, hσ] at hprimary
  replayed := h.replayed
  replayed_le := h.replayed_le

theorem Fits.disconnect (h : Fits line next σ) : Fits line next σ.disconnect :=
  ⟨h.timeline_lt, h.log_le, h.primary, h.replayed, h.replayed_le⟩

theorem Fits.promote (h : Fits line next σ) :
    Fits (Function.update line next σ.log) (next + 1) (σ.promote next) where
  timeline_lt := next.lt_succ_self
  log_le := by simp [Server.promote]
  primary _ := by simp [Server.promote]
  replayed hstandby := by simp [Server.promote] at hstandby
  replayed_le := h.replayed_le

end Servers

section Moves

variable [DecidableEq N] {c c' : Cluster N R}

/-- A property of every server, after a change of one of them. -/
theorem forall_update {P : Server R → Prop} {n : N} {σ : Server R} (hσ : P σ)
    (h : ∀ m, m ≠ n → P (c.server m)) (m : N) : P (Function.update c.server n σ m) := by
  by_cases hm : m = n
  · subst hm
    rwa [Function.update_self]
  · rw [Function.update_of_ne hm]
    exact h m hm

/-- A standby changes, and stays one. -/
theorem WellFormed.update_standby (hc : WellFormed c) {n : N} {σ : Server R} (hσ : σ.standby = true)
    (hfits : Fits c.line c.next σ) : WellFormed { c with server := Function.update c.server n σ } := by
  have hprimary : ∀ m, (Function.update c.server n σ m).standby = false →
      Function.update c.server n σ m = c.server m := by
    intro m hm
    by_cases h : m = n
    · subst h
      rw [Function.update_self, hσ] at hm
      cases hm
    · exact Function.update_of_ne h _ _
  refine ⟨forall_update hfits fun m _ => hc.fits m, hc.unused, fun m m' hm hm' heq => ?_⟩
  have hsame := hprimary m hm
  have hsame' := hprimary m' hm'
  dsimp only at hm hm' heq
  rw [hsame] at hm heq
  rw [hsame'] at hm' heq
  exact hc.sole m m' hm hm' heq

theorem WellFormed.append (hc : WellFormed c) {n : N} {r : R} (hn : (c.server n).standby = false) :
    WellFormed { c with
      server := Function.update c.server n ((c.server n).append r)
      line := Function.update c.line (c.server n).timeline ((c.server n).log ++ [r]) } := by
  refine ⟨forall_update ((hc.fits n).append hn r) fun m hm => ?_, fun t ht => ?_, ?_⟩
  · -- the others on this timeline are standbys, for which it goes on
    by_cases ht : (c.server m).timeline = (c.server n).timeline
    · have hm : (c.server m).standby = true := by
        by_contra h
        exact hm (hc.sole m n (Bool.eq_false_iff.mpr h) hn ht)
      rw [← ht]
      refine (hc.fits m).extend_line hm ?_
      rw [ht, ← (hc.fits n).primary hn]
      exact List.prefix_append _ _
    · exact (hc.fits m).update_line ht le_rfl
  · have hne : t ≠ (c.server n).timeline := ((hc.fits n).timeline_lt.trans_le ht).ne'
    simpa [hne] using hc.unused t ht
  · have hsame : ∀ m, (Function.update c.server n ((c.server n).append r) m).standby = (c.server m).standby ∧
        (Function.update c.server n ((c.server n).append r) m).timeline = (c.server m).timeline := by
      intro m
      by_cases h : m = n
      · subst h
        simp [Server.append]
      · simp [h]
    intro m m' hm hm' heq
    dsimp only at hm hm' heq
    rw [(hsame m).1] at hm
    rw [(hsame m').1] at hm'
    rw [(hsame m).2, (hsame m').2] at heq
    exact hc.sole m m' hm hm' heq

theorem WellFormed.promote (hc : WellFormed c) (n : N) :
    WellFormed {
      server := Function.update c.server n ((c.server n).promote c.next)
      line := Function.update c.line c.next (c.server n).log
      next := c.next + 1 } := by
  have hother : ∀ m, (c.server m).timeline ≠ c.next := fun m => (hc.fits m).timeline_lt.ne
  refine ⟨forall_update (hc.fits n).promote fun m _ => (hc.fits m).update_line (hother m) (Nat.le_succ _),
    fun t ht => ?_, ?_⟩
  · have hne : t ≠ c.next := by
      dsimp only at ht
      omega
    simpa [hne] using hc.unused t ((Nat.le_succ _).trans ht)
  · intro m m' hm hm' heq
    by_cases h : m = n <;> by_cases h' : m' = n
    · rw [h, h']
    · subst h
      exact absurd (by simpa [h', Server.promote] using heq.symm) (hother m')
    · subst h'
      exact absurd (by simpa [h, Server.promote] using heq) (hother m)
    · exact hc.sole m m' (by simpa [h] using hm) (by simpa [h'] using hm') (by simpa [h, h'] using heq)

/-- **A move changes its server only.** -/
theorem server_of_move [DecidableEq R] {m : Move N R} (h : move c m = some c') :
    c'.server = Function.update c.server m.actor (c.acted m) := by
  cases m with
  | append n r =>
    obtain ⟨-, h⟩ := Option.ite_none_left_eq_some.mp h
    obtain rfl := Option.some.inj h
    rfl
  | replay n r | follow n timeline | disconnect n | promote n =>
    obtain ⟨-, h⟩ := Option.ite_none_right_eq_some.mp h
    obtain rfl := Option.some.inj h
    rfl

variable [DecidableEq R]

/-- **A move keeps a cluster well formed.** -/
theorem move_wellFormed : Keeps (move (N := N) (R := R)) WellFormed := by
  intro c m c' hc h
  cases m with
  | append n r =>
    obtain ⟨hn, h⟩ := Option.ite_none_left_eq_some.mp h
    obtain rfl := Option.some.inj h
    exact hc.append (Bool.eq_false_iff.mpr hn)
  | replay n r =>
    obtain ⟨⟨hn, hlog⟩, h⟩ := Option.ite_none_right_eq_some.mp h
    obtain rfl := Option.some.inj h
    exact hc.update_standby hn ((hc.fits n).replay hn hlog)
  | follow n timeline =>
    obtain ⟨⟨hn, ht, hlog⟩, h⟩ := Option.ite_none_right_eq_some.mp h
    obtain rfl := Option.some.inj h
    exact hc.update_standby hn ((hc.fits n).follow hn ht hlog)
  | disconnect n =>
    obtain ⟨hn, h⟩ := Option.ite_none_right_eq_some.mp h
    obtain rfl := Option.some.inj h
    exact hc.update_standby hn (hc.fits n).disconnect
  | promote n =>
    obtain ⟨-, h⟩ := Option.ite_none_right_eq_some.mp h
    obtain rfl := Option.some.inj h
    exact hc.promote n

theorem line_of_move (hc : WellFormed c) {m : Move N R} (h : move c m = some c') (t : ℕ) :
    c.line t <+: c'.line t := by
  cases m with
  | append n r =>
    obtain ⟨hn, h⟩ := Option.ite_none_left_eq_some.mp h
    obtain rfl := Option.some.inj h
    by_cases ht : t = (c.server n).timeline
    · subst ht
      rw [← (hc.fits n).primary (Bool.eq_false_iff.mpr hn)]
      simp
    · simp [ht]
  | promote n =>
    obtain ⟨-, h⟩ := Option.ite_none_right_eq_some.mp h
    obtain rfl := Option.some.inj h
    by_cases ht : t = c.next
    · subst ht
      rw [hc.unused c.next le_rfl]
      exact List.nil_prefix
    · simp [ht]
  | replay n r | follow n timeline | disconnect n =>
    obtain ⟨-, h⟩ := Option.ite_none_right_eq_some.mp h
    obtain rfl := Option.some.inj h
    exact List.prefix_rfl

/-- **Logs only grow.** -/
theorem grown_of_move (hc : WellFormed c) {m : Move N R} (h : move c m = some c') : Grown c c' := by
  refine ⟨line_of_move hc h, fun n => ?_⟩
  rw [server_of_move h]
  by_cases hn : n = m.actor
  · subst hn
    rw [Function.update_self]
    exact log_acted c m
  · rw [Function.update_of_ne hn]

/-- A server that is a standby after a move was one before, and has another timeline only if it has gone
over to it. -/
theorem standby_of_move {m : Move N R} (h : move c m = some c') {n : N} (hn : (c'.server n).standby = true) :
    (c.server n).standby = true ∧
      ((c'.server n).timeline = (c.server n).timeline ∨ m = .follow n (c'.server n).timeline) := by
  rw [server_of_move h] at hn ⊢
  by_cases hactor : n = m.actor
  · subst hactor
    rw [Function.update_self] at hn ⊢
    cases m with
    | append n r | replay n r | disconnect n => exact ⟨hn, .inl rfl⟩
    | follow n timeline => exact ⟨hn, .inr rfl⟩
    | promote n => cases hn
  · rw [Function.update_of_ne hactor] at hn ⊢
    exact ⟨hn, .inl rfl⟩

/-- Only a standby's replay moves the position of its replay. -/
theorem replayed_of_move {m : Move N R} (h : move c m = some c') {n : N} (hn : (c'.server n).standby = false) :
    (c'.server n).replayed = (c.server n).replayed := by
  have hserver := server_of_move h
  rw [hserver] at hn ⊢
  by_cases hactor : n = m.actor
  · subst hactor
    rw [Function.update_self] at hn ⊢
    cases m with
    | append n r | follow n timeline | disconnect n | promote n => rfl
    | replay n r =>
      obtain ⟨⟨hstandby, -⟩, -⟩ := Option.ite_none_right_eq_some.mp h
      exact absurd hstandby (Bool.eq_false_iff.mp hn)
  · rw [Function.update_of_ne hactor]

end Moves

end Replication
