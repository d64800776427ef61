import Mathlib
import PgAuthz.Transition.Runs

/-!
# Reservations against a cap

`reserve_event` decides a request and records it under a lock of its subject. A gate bounds the recorded
requests: its clause counts those of a trailing window that ends at the clock, and the request itself. The
lock makes each decision see the reservations before it, but for two things. An event that is recorded
ahead of the clock is outside the windows of the decisions that come before its time; and a transaction
with a snapshot from before its lock does not see what was committed while it waited.

## Main definitions

* `Event`, `Gate`: events of one subject, and a gate with a cap
* `clausePasses`: the clause `count_within` with `max` and `plus: 1`
* `reserveStep`: what transactions with calls of `reserve_event` do next
* `Bounded`: no more reservations in the trailing window than the cap
* `Punctual`: the condition on a step

## Main results

* `reservations_bounded`: along the condition the trailing windows never hold more reservations than the
  cap
-/

namespace PgAuthz.ActionLog

open Transition

/-! ## Events and gates -/

/-- The kinds of events. -/
inductive Kind
  | request
  | response
  | denied
deriving DecidableEq, Repr

/-- A row of `authz.events` of one subject, and whether an allowed reservation recorded it. -/
structure Event where
  eventId : Option String
  action : ℕ
  kind : Kind
  occurredAt : ℤ
  recordedAt : ℤ
  reserved : Bool
deriving DecidableEq, Repr

/--
A gate on an action with a clause `count_within` of a window, `max` and `plus: 1`. The window that ends at
an instant starts at `windowStart` of it, exclusively; a later window does not start earlier. The log
accepts events at most `maxFutureSkew` ahead of the clock and `maxBackdate` behind it.
-/
structure Gate where
  action : ℕ
  windowStart : ℤ → ℤ
  windowStart_mono : Monotone windowStart
  max : ℕ
  maxFutureSkew : ℤ
  maxBackdate : ℤ

variable (g : Gate)

/-- `_event_matching`: the requests of the gated action in the window that ends at `now`. -/
def eventMatching (log : List Event) (now : ℤ) : List Event :=
  log.filter fun e => e.action = g.action && e.kind = .request &&
    g.windowStart now < e.occurredAt && e.occurredAt ≤ now

/-- `_event_eval_clause`: the requests in the window with the one that is decided are within the cap. -/
def clausePasses (log : List Event) (now : ℤ) : Bool :=
  (eventMatching g log now).length + 1 ≤ g.max

/-! ## Calls -/

/-- A call of `reserve_event` for the gated action. What else its decision needs, the graph and the other
clauses, is given. -/
structure Reserve where
  occurredAt : Option ℤ
  eventId : Option String
  recordDenied : Bool
  otherwiseAllowed : Bool
deriving DecidableEq, Repr

/-- Where a transaction is. -/
inductive Stage
  | idle
  | waiting (call : Reserve)
  | locked (call : Reserve)
  | decided (call : Reserve) (allowed : Bool)
deriving DecidableEq, Repr

/-- An open transaction: its snapshot if it keeps one, the events it has recorded, and whether it holds the
lock of the subject, which it keeps to its end. -/
structure Tx where
  repeatableRead : Bool
  snapshot : List Event
  pending : List Event
  holds : Bool
  stage : Stage
deriving DecidableEq, Repr

/-- The clock of the database, the committed events of the subject, and the open transactions. -/
structure LogState where
  clock : ℤ
  log : List Event
  opened : List Tx
deriving DecidableEq, Repr

/-- The events that the decision of a transaction counts. Each query of a transaction that does not keep
its snapshot sees what is committed. -/
def LogState.seenBy (s : LogState) (tx : Tx) : List Event :=
  (if tx.repeatableRead then tx.snapshot else s.log) ++ tx.pending

/-- `record_event` at the clock, after the decision: none if it raises. A key that is recorded already
records nothing. -/
def recordEvent (s : LogState) (tx : Tx) (call : Reserve) (allowed : Bool) : Option (List Event) :=
  let occurredAt := call.occurredAt.getD s.clock
  if occurredAt > s.clock + g.maxFutureSkew ∨ occurredAt < s.clock - g.maxBackdate then none
  else if call.eventId.isSome ∧ (s.log ++ tx.pending).any fun e =>
      e.eventId = call.eventId && e.occurredAt = occurredAt then some []
  else some [{
    eventId := call.eventId
    action := g.action
    kind := if allowed then .request else .denied
    occurredAt := occurredAt
    recordedAt := s.clock
    reserved := allowed }]

/-- What can happen next. A transaction is named by its place. Events of the subject are recorded in other
ways too, and deleted. -/
inductive LogEvent
  | tick (d : ℕ)
  | begin (repeatableRead : Bool)
  | call (i : ℕ) (call : Reserve)
  | lock (i : ℕ)
  | decide (i : ℕ)
  | record (i : ℕ)
  | commit (i : ℕ)
  | abort (i : ℕ)
  | other (keep : Event → Bool) (added : List Event)

/-- The step of one open transaction among the `others`: the transaction after it, or none if it cannot
happen. -/
def Tx.next (s : LogState) (tx : Tx) (others : List Tx) : LogEvent → Option Tx
  | .call _ call =>
    if tx.stage = .idle ∧ (call.eventId.isSome → call.occurredAt.isSome) then
      some { tx with stage := .waiting call }
    else none
  | .lock _ =>
    match tx.stage with
    | .waiting call =>
      if others.any Tx.holds then none else some { tx with holds := true, stage := .locked call }
    | _ => none
  | .decide _ =>
    match tx.stage with
    | .locked call =>
      some { tx with
        stage := .decided call (call.otherwiseAllowed && clausePasses g (s.seenBy tx) s.clock) }
    | _ => none
  | .record _ =>
    match tx.stage with
    | .decided call allowed =>
      if allowed || call.recordDenied then
        (recordEvent g s tx call allowed).map fun es =>
          { tx with pending := tx.pending ++ es, stage := .idle }
      else some { tx with stage := .idle }
    | _ => none
  | _ => none

/-- The next state, unless the event cannot happen. -/
def reserveStep (s : LogState) : LogEvent → Option LogState
  | .tick d => some { s with clock := s.clock + d }
  | .begin repeatableRead =>
    some { s with opened := s.opened ++ [⟨repeatableRead, s.log, [], false, .idle⟩] }
  | .commit i => s.opened[i]?.bind fun tx =>
    if tx.stage = .idle then
      some { s with log := s.log ++ tx.pending, opened := s.opened.eraseIdx i }
    else none
  | .abort i => s.opened[i]?.map fun _ => { s with opened := s.opened.eraseIdx i }
  | .other keep added =>
    some { s with log := s.log.filter keep ++ added.map fun e => { e with reserved := false } }
  | .call i c => s.opened[i]?.bind fun tx =>
    (tx.next g s (s.opened.eraseIdx i) (.call i c)).map fun tx' =>
      { s with opened := s.opened.set i tx' }
  | .lock i => s.opened[i]?.bind fun tx =>
    (tx.next g s (s.opened.eraseIdx i) (.lock i)).map fun tx' =>
      { s with opened := s.opened.set i tx' }
  | .decide i => s.opened[i]?.bind fun tx =>
    (tx.next g s (s.opened.eraseIdx i) (.decide i)).map fun tx' =>
      { s with opened := s.opened.set i tx' }
  | .record i => s.opened[i]?.bind fun tx =>
    (tx.next g s (s.opened.eraseIdx i) (.record i)).map fun tx' =>
      { s with opened := s.opened.set i tx' }

/-- The state before any event. -/
def LogState.init (clock : ℤ) : LogState := ⟨clock, [], []⟩

/-- **The cap holds**: the allowed reservations that are recorded in the window that ends now. -/
def Bounded (s : LogState) : Prop :=
  (s.log.filter fun e => e.reserved && g.windowStart s.clock < e.occurredAt &&
    e.occurredAt ≤ s.clock).length ≤ g.max

instance (s : LogState) : Decidable (Bounded g s) := inferInstanceAs (Decidable (_ ≤ _))

/--
The condition on a step. An allowed reservation is not recorded ahead of the clock; and a transaction that
decides on a snapshot has every committed event in it.
-/
def Punctual (s : LogState) : LogEvent → Prop
  | .record i => ∀ tx ∈ s.opened[i]?, ∀ c, tx.stage = .decided c true →
      ∀ t ∈ c.occurredAt, t ≤ s.clock
  | .decide i => ∀ tx ∈ s.opened[i]?, tx.repeatableRead = true → s.log.Sublist tx.snapshot
  | _ => True

/-! ## The invariant -/

/-- The reservations that are in the windows from `now` on, as far as they are behind the clock. -/
def live (now : ℤ) (log : List Event) : ℕ :=
  log.countP fun e => e.reserved && g.windowStart now < e.occurredAt

/-- What a transaction takes of the cap: the reservations it has recorded, and the one it has decided. -/
def Tx.load (now : ℤ) (tx : Tx) : ℕ :=
  live g now tx.pending +
    match tx.stage with
    | .decided _ true => 1
    | _ => 0

/-- A transaction that does not hold the lock has neither decided nor recorded. -/
def Tx.Waits (tx : Tx) : Prop :=
  tx.holds = false → tx.pending = [] ∧ (tx.stage = .idle ∨ ∃ c, tx.stage = .waiting c)

/-- The reservations of a list are requests of the gated action, and not ahead of `now`. -/
def Past (now : ℤ) (log : List Event) : Prop :=
  ∀ e ∈ log, e.reserved = true → e.action = g.action ∧ e.kind = .request ∧ e.occurredAt ≤ now

/-- One transaction at most holds the lock, and the committed and the open reservations are within the
cap. -/
structure Inv (s : LogState) : Prop where
  single : s.opened.countP Tx.holds ≤ 1
  waits : ∀ tx ∈ s.opened, tx.Waits
  past : Past g s.clock s.log
  pending : ∀ tx ∈ s.opened, Past g s.clock tx.pending
  bound : live g s.clock s.log + (s.opened.map (Tx.load g s.clock)).sum ≤ g.max

variable {g}

theorem live_append (now : ℤ) (l l' : List Event) :
    live g now (l ++ l') = live g now l + live g now l' := List.countP_append ..

/-- Windows only lose events as time goes on. -/
theorem live_anti {now now' : ℤ} (hle : now ≤ now') (l : List Event) :
    live g now' l ≤ live g now l := by
  apply List.countP_mono_left
  intro e _ h
  simp only [Bool.and_eq_true, decide_eq_true_eq] at h ⊢
  exact ⟨h.1, (g.windowStart_mono hle).trans_lt h.2⟩

theorem Past.mono {now now' : ℤ} (hle : now ≤ now') {l : List Event} (h : Past g now l) :
    Past g now' l := fun e he hres =>
  ⟨(h e he hres).1, (h e he hres).2.1, (h e he hres).2.2.trans hle⟩

theorem Past.append {now : ℤ} {l l' : List Event} (h : Past g now l) (h' : Past g now l') :
    Past g now (l ++ l') := fun e he =>
  (List.mem_append.mp he).elim (h e) (h' e)

/-- The clause counts every reservation of the window. -/
theorem live_le_matching {now : ℤ} {l seen : List Event} (hpast : Past g now l) (hseen : l.Sublist seen) :
    live g now l ≤ (eventMatching g seen now).length := by
  have hsub : l.filter (fun e => e.reserved && g.windowStart now < e.occurredAt) =
      (eventMatching g l now).filter Event.reserved := by
    unfold eventMatching
    rw [List.filter_filter]
    refine List.filter_congr fun e he => ?_
    cases hres : e.reserved with
    | false => simp
    | true =>
      obtain ⟨haction, hkind, hle⟩ := hpast e he hres
      simp [haction, hkind, hle]
  calc live g now l
      = ((eventMatching g l now).filter Event.reserved).length := by
        rw [live, List.countP_eq_length_filter, hsub]
    _ ≤ (eventMatching g l now).length := List.length_filter_le _ _
    _ ≤ (eventMatching g seen now).length := (hseen.filter _).length_le

theorem load_anti {now now' : ℤ} (hle : now ≤ now') (tx : Tx) : tx.load g now' ≤ tx.load g now := by
  have := live_anti (g := g) hle tx.pending
  unfold Tx.load
  split <;> omega

/-- A transaction that waits takes nothing. -/
theorem Tx.Waits.load {tx : Tx} (h : tx.Waits) (hholds : tx.holds = false) (now : ℤ) :
    tx.load g now = 0 := by
  obtain ⟨hpending, hstage⟩ := h hholds
  rw [Tx.load, hpending]
  rcases hstage with hstage | ⟨c, hstage⟩ <;> simp [live, hstage]

theorem sum_load_eq_zero {now : ℤ} {l : List Tx} (hwaits : ∀ tx ∈ l, tx.Waits)
    (hnone : l.countP Tx.holds = 0) : (l.map (Tx.load g now)).sum = 0 := by
  apply List.sum_eq_zero
  intro x hx
  obtain ⟨tx, htx, rfl⟩ := List.mem_map.mp hx
  apply (hwaits tx htx).load
  simpa using List.countP_eq_zero.mp hnone tx htx

/-- The cap holds in a state of the invariant. -/
theorem Inv.bounded {s : LogState} (h : Inv g s) : Bounded g s := by
  have hle : (s.log.filter fun e => e.reserved && g.windowStart s.clock < e.occurredAt &&
      e.occurredAt ≤ s.clock).length ≤ live g s.clock s.log := by
    rw [live, List.countP_eq_length_filter]
    apply List.Sublist.length_le
    apply List.monotone_filter_right
    intro e h
    simp only [Bool.and_eq_true, decide_eq_true_eq] at h ⊢
    exact h.1
  have := h.bound
  unfold Bounded
  omega

/-! ## Steps -/

section Steps

variable {s s' : LogState} {i : ℕ} {tx tx' : Tx}

/-- A transaction among the others: if it holds the lock, the others wait and take nothing. -/
theorem Inv.others (h : Inv g s) (hi : s.opened[i]? = some tx) (hholds : tx.holds = true) :
    ((s.opened.eraseIdx i).map (Tx.load g s.clock)).sum = 0 := by
  obtain ⟨l₁, l₂, hopened, -, herase⟩ := split_of_getElem? hi
  rw [herase]
  apply sum_load_eq_zero
  · intro tx' htx'
    apply h.waits tx'
    rw [hopened]
    rcases List.mem_append.mp htx' with htx' | htx'
    · exact List.mem_append_left _ htx'
    · exact List.mem_append_right _ (List.mem_cons_of_mem _ htx')
  · have hsingle := h.single
    rw [hopened, List.countP_append, List.countP_cons, if_pos hholds] at hsingle
    rw [List.countP_append]
    omega

theorem sum_load_split (now : ℤ) (hi : s.opened[i]? = some tx) :
    (s.opened.map (Tx.load g now)).sum =
      tx.load g now + ((s.opened.eraseIdx i).map (Tx.load g now)).sum := by
  obtain ⟨l₁, l₂, hopened, -, herase⟩ := split_of_getElem? hi
  rw [herase, hopened]
  simp only [List.map_append, List.map_cons, List.sum_append, List.sum_cons]
  omega

theorem sum_load_set (now : ℤ) (hi : s.opened[i]? = some tx) :
    ((s.opened.set i tx').map (Tx.load g now)).sum =
      tx'.load g now + ((s.opened.eraseIdx i).map (Tx.load g now)).sum := by
  obtain ⟨l₁, l₂, -, hset, herase⟩ := split_of_getElem? hi
  rw [herase, hset]
  simp only [List.map_append, List.map_cons, List.sum_append, List.sum_cons]
  omega

/-- **A step of one transaction** keeps the invariant if the transaction keeps its part of it: it takes the
lock only if nobody else has it, and takes no more of the cap than there is. -/
theorem Inv.set (h : Inv g s) (hi : s.opened[i]? = some tx)
    (hlock : tx'.holds = true → tx.holds = true ∨ (s.opened.eraseIdx i).any Tx.holds = false)
    (hwaits : tx'.Waits) (hpending : Past g s.clock tx'.pending)
    (hload : live g s.clock s.log + tx'.load g s.clock +
      ((s.opened.eraseIdx i).map (Tx.load g s.clock)).sum ≤ g.max) :
    Inv g { s with opened := s.opened.set i tx' } := by
  obtain ⟨l₁, l₂, hopened, hset, herase⟩ := split_of_getElem? hi
  have hmem : ∀ t ∈ s.opened.set i tx', t = tx' ∨ t ∈ s.opened := by
    intro t ht
    rw [hset] at ht
    rw [hopened]
    simp only [List.mem_append, List.mem_cons] at ht ⊢
    tauto
  refine ⟨?_, ?_, h.past, ?_, ?_⟩
  · have hsingle := h.single
    rw [hopened, List.countP_append, List.countP_cons] at hsingle
    simp only [hset, List.countP_append, List.countP_cons]
    cases hholds : tx'.holds with
    | false =>
      simp only [Bool.false_eq_true, if_false]
      omega
    | true =>
      rcases hlock hholds with htx | hfree
      · rw [if_pos htx] at hsingle
        simpa using hsingle
      · -- nobody else has the lock
        rw [herase, List.any_eq_false] at hfree
        have hnone : (l₁ ++ l₂).countP Tx.holds = 0 := List.countP_eq_zero.mpr hfree
        rw [List.countP_append] at hnone
        simp only [if_true]
        omega
  · intro t ht
    rcases hmem t ht with rfl | ht
    · exact hwaits
    · exact h.waits t ht
  · intro t ht
    rcases hmem t ht with rfl | ht
    · exact hpending
    · exact h.pending t ht
  · show live g s.clock s.log + ((s.opened.set i tx').map (Tx.load g s.clock)).sum ≤ g.max
    rw [sum_load_set s.clock hi]
    omega

/-- A transaction that decides or records holds the lock. -/
theorem Inv.holds_of_stage (h : Inv g s) (hi : s.opened[i]? = some tx)
    (hstage : ¬ (tx.stage = .idle ∨ ∃ c, tx.stage = .waiting c)) : tx.holds = true := by
  by_contra hnot
  exact hstage ((h.waits tx (List.mem_of_getElem? hi)) (by simpa using hnot)).2

/-- What a recorded event is. -/
theorem mem_recordEvent {call : Reserve} {allowed : Bool} {es : List Event}
    (h : recordEvent g s tx call allowed = some es) :
    es = [] ∨ ∃ e, es = [e] ∧ e.reserved = allowed ∧ (allowed = true → e.action = g.action ∧
      e.kind = .request) ∧ e.occurredAt = call.occurredAt.getD s.clock := by
  unfold recordEvent at h
  dsimp only at h
  split at h
  · cases h
  · split at h
    · cases h
      exact .inl rfl
    · cases h
      refine .inr ⟨_, rfl, rfl, ?_, rfl⟩
      rintro rfl
      exact ⟨rfl, rfl⟩

theorem inv_call (h : Inv g s) {c : Reserve} (hi : s.opened[i]? = some tx)
    (hnext : tx.next g s (s.opened.eraseIdx i) (.call i c) = some tx') :
    Inv g { s with opened := s.opened.set i tx' } := by
  unfold Tx.next at hnext
  dsimp only at hnext
  split at hnext
  · rename_i hstage
    cases hnext
    have hbound := h.bound
    rw [sum_load_split s.clock hi] at hbound
    have hload : (Tx.load g s.clock { tx with stage := .waiting c }) = tx.load g s.clock := by
      simp only [Tx.load, hstage.1]
    refine h.set hi .inl ?_ (h.pending tx (List.mem_of_getElem? hi)) (by rw [hload]; omega)
    intro hholds
    exact ⟨(h.waits tx (List.mem_of_getElem? hi) hholds).1, .inr ⟨c, rfl⟩⟩
  · cases hnext

theorem inv_lock (h : Inv g s) (hi : s.opened[i]? = some tx)
    (hnext : tx.next g s (s.opened.eraseIdx i) (.lock i) = some tx') :
    Inv g { s with opened := s.opened.set i tx' } := by
  unfold Tx.next at hnext
  dsimp only at hnext
  split at hnext
  · rename_i c hstage
    split at hnext
    · cases hnext
    · rename_i hfree
      cases hnext
      have hbound := h.bound
      rw [sum_load_split s.clock hi] at hbound
      have hload : (Tx.load g s.clock { tx with holds := true, stage := .locked c }) =
          tx.load g s.clock := by
        simp only [Tx.load, hstage]
      refine h.set hi (fun _ => .inr (by simpa using hfree)) (fun hholds => (nomatch hholds))
        (h.pending tx (List.mem_of_getElem? hi)) (by rw [hload]; omega)
  · cases hnext

/-- **A decision** leaves room for its reservation: it counts all that are committed, and its own. -/
theorem inv_decide (h : Inv g s) (hi : s.opened[i]? = some tx)
    (hsees : tx.repeatableRead = true → s.log.Sublist tx.snapshot)
    (hnext : tx.next g s (s.opened.eraseIdx i) (.decide i) = some tx') :
    Inv g { s with opened := s.opened.set i tx' } := by
  unfold Tx.next at hnext
  dsimp only at hnext
  split at hnext
  · rename_i c hstage
    cases hnext
    have hholds : tx.holds = true := by
      apply h.holds_of_stage hi
      simp [hstage]
    have hothers := h.others hi hholds
    have hbound := h.bound
    rw [sum_load_split s.clock hi, hothers] at hbound
    have hown : tx.load g s.clock = live g s.clock tx.pending := by
      simp only [Tx.load, hstage, Nat.add_zero]
    refine h.set hi (fun _ => .inl hholds) (fun hfree => ?_) (h.pending tx (List.mem_of_getElem? hi)) ?_
    · exact absurd (hholds.symm.trans hfree) (by decide)
    rw [hothers]
    cases hallowed : c.otherwiseAllowed && clausePasses g (s.seenBy tx) s.clock with
    | false =>
      simp only [Tx.load]
      omega
    | true =>
      have hclause : (eventMatching g (s.seenBy tx) s.clock).length + 1 ≤ g.max :=
        of_decide_eq_true (Bool.and_eq_true_iff.mp hallowed).2
      have hseen : (s.log ++ tx.pending).Sublist (s.seenBy tx) := by
        unfold LogState.seenBy
        apply List.Sublist.append_right
        split
        · rename_i hkeeps
          exact hsees hkeeps
        · exact List.Sublist.refl _
      have hle : live g s.clock (s.log ++ tx.pending) ≤ _ :=
        live_le_matching (h.past.append (h.pending tx (List.mem_of_getElem? hi))) hseen
      rw [live_append] at hle
      simp only [Tx.load]
      omega
  · cases hnext

/-- **A record** takes the room of its decision. -/
theorem inv_record (h : Inv g s) (hi : s.opened[i]? = some tx)
    (hpunctual : ∀ c, tx.stage = .decided c true → ∀ t ∈ c.occurredAt, t ≤ s.clock)
    (hnext : tx.next g s (s.opened.eraseIdx i) (.record i) = some tx') :
    Inv g { s with opened := s.opened.set i tx' } := by
  unfold Tx.next at hnext
  dsimp only at hnext
  split at hnext
  · rename_i c allowed hstage
    have hholds : tx.holds = true := by
      apply h.holds_of_stage hi
      simp [hstage]
    have hothers := h.others hi hholds
    have hbound := h.bound
    rw [sum_load_split s.clock hi, hothers] at hbound
    have hpending := h.pending tx (List.mem_of_getElem? hi)
    have hkeep : ∀ tx'' : Tx, tx''.holds = tx.holds → Past g s.clock tx''.pending →
        tx''.load g s.clock ≤ tx.load g s.clock → Inv g { s with opened := s.opened.set i tx'' } := by
      intro tx'' hsame hpast hload
      refine h.set hi (fun _ => .inl hholds) (fun hfree => ?_) hpast (by rw [hothers]; omega)
      exact absurd (hholds.symm.trans (hsame.symm.trans hfree)) (by decide)
    split at hnext
    · obtain ⟨es, hes, rfl⟩ := Option.map_eq_some_iff.mp hnext
      rcases mem_recordEvent hes with rfl | ⟨e, rfl, hreserved, hrequest, hoccurred⟩
      · apply hkeep
        · rfl
        · simpa using hpending
        · simp only [Tx.load, List.append_nil, hstage]
          split <;> omega
      · apply hkeep
        · rfl
        · apply hpending.append
          intro e' he' hres
          obtain rfl := List.mem_singleton.mp he'
          -- an allowed reservation is recorded at the clock, or at its own time, which is not ahead
          rw [hreserved] at hres
          subst hres
          refine ⟨(hrequest rfl).1, (hrequest rfl).2, ?_⟩
          rw [hoccurred]
          cases htime : c.occurredAt with
          | none => exact le_rfl
          | some t => exact hpunctual c hstage t htime
        · have hone : live g s.clock [e] ≤ if allowed then 1 else 0 := by
            rw [live, List.countP_singleton, hreserved]
            cases allowed with
            | false => simp
            | true =>
              simp only [Bool.true_and, if_true]
              split <;> omega
          simp only [Tx.load, hstage, live_append, Nat.add_zero]
          cases allowed with
          | false =>
            simp only [Bool.false_eq_true, if_false] at hone ⊢
            omega
          | true =>
            simp only [if_true] at hone ⊢
            omega
    · cases hnext
      apply hkeep
      · rfl
      · exact hpending
      · simp only [Tx.load, hstage]
        split <;> omega
  · cases hnext

/-- The end of a transaction: what it has recorded is committed, or it is lost. -/
theorem inv_end (h : Inv g s) {log : List Event} (hi : s.opened[i]? = some tx)
    (hpast : Past g s.clock log)
    (hload : live g s.clock log ≤ live g s.clock s.log + tx.load g s.clock) :
    Inv g { s with log := log, opened := s.opened.eraseIdx i } := by
  obtain ⟨l₁, l₂, hopened, -, herase⟩ := split_of_getElem? hi
  have hmem : ∀ t ∈ s.opened.eraseIdx i, t ∈ s.opened := fun t ht => List.mem_of_mem_eraseIdx ht
  have hbound := h.bound
  rw [sum_load_split s.clock hi] at hbound
  refine ⟨?_, fun t ht => h.waits t (hmem t ht), hpast, fun t ht => h.pending t (hmem t ht), ?_⟩
  · have hsingle := h.single
    rw [hopened, List.countP_append, List.countP_cons] at hsingle
    simp only [herase, List.countP_append]
    omega
  · show live g s.clock log + ((s.opened.eraseIdx i).map (Tx.load g s.clock)).sum ≤ g.max
    omega

theorem inv_tick (h : Inv g s) (d : ℕ) : Inv g { s with clock := s.clock + d } := by
  have hle : s.clock ≤ s.clock + d := by omega
  refine ⟨h.single, h.waits, h.past.mono hle, fun t ht => (h.pending t ht).mono hle, ?_⟩
  have hsum : (s.opened.map (Tx.load g (s.clock + d))).sum ≤ (s.opened.map (Tx.load g s.clock)).sum :=
    List.sum_le_sum fun t _ => load_anti hle t
  have hlive := live_anti (g := g) hle s.log
  have hbound := h.bound
  show live g (s.clock + d) s.log + (s.opened.map (Tx.load g (s.clock + d))).sum ≤ g.max
  omega

theorem inv_begin (h : Inv g s) (repeatableRead : Bool) :
    Inv g { s with opened := s.opened ++ [⟨repeatableRead, s.log, [], false, .idle⟩] } := by
  refine ⟨?_, ?_, h.past, ?_, ?_⟩
  · simpa [List.countP_append] using h.single
  · intro t ht
    rcases List.mem_append.mp ht with ht | ht
    · exact h.waits t ht
    · obtain rfl := List.mem_singleton.mp ht
      exact fun _ => ⟨rfl, .inl rfl⟩
  · intro t ht
    rcases List.mem_append.mp ht with ht | ht
    · exact h.pending t ht
    · obtain rfl := List.mem_singleton.mp ht
      exact fun e he => absurd he List.not_mem_nil
  · simpa [List.sum_append, Tx.load, live] using h.bound

/-- What is recorded in other ways is no reservation. -/
theorem inv_other (h : Inv g s) (keep : Event → Bool) (added : List Event) :
    Inv g { s with log := s.log.filter keep ++ added.map fun e => { e with reserved := false } } := by
  refine ⟨h.single, h.waits, ?_, h.pending, ?_⟩
  · apply Past.append
    · exact fun e he => h.past e (List.mem_of_mem_filter he)
    · intro e he hres
      obtain ⟨e', -, rfl⟩ := List.mem_map.mp he
      cases hres
  · have hkept : live g s.clock (s.log.filter keep) ≤ live g s.clock s.log :=
      List.Sublist.countP_le List.filter_sublist
    have hadded : live g s.clock (added.map fun e => { e with reserved := false }) = 0 := by
      apply List.countP_eq_zero.mpr
      intro e he
      obtain ⟨e', -, rfl⟩ := List.mem_map.mp he
      simp
    have hbound := h.bound
    simp only [live_append, hadded]
    omega

/-- **What every step that meets the condition keeps.** -/
theorem inv_step {e : LogEvent} (h : Inv g s) (hok : Punctual s e) (hstep : reserveStep g s e = some s') :
    Inv g s' := by
  cases e with
  | tick d =>
    cases hstep
    exact inv_tick h d
  | begin repeatableRead =>
    cases hstep
    exact inv_begin h repeatableRead
  | call i c =>
    obtain ⟨tx, hi, hstep⟩ := Option.bind_eq_some_iff.mp hstep
    obtain ⟨tx', hnext, rfl⟩ := Option.map_eq_some_iff.mp hstep
    exact inv_call h hi hnext
  | lock i =>
    obtain ⟨tx, hi, hstep⟩ := Option.bind_eq_some_iff.mp hstep
    obtain ⟨tx', hnext, rfl⟩ := Option.map_eq_some_iff.mp hstep
    exact inv_lock h hi hnext
  | decide i =>
    obtain ⟨tx, hi, hstep⟩ := Option.bind_eq_some_iff.mp hstep
    obtain ⟨tx', hnext, rfl⟩ := Option.map_eq_some_iff.mp hstep
    exact inv_decide h hi (hok tx hi) hnext
  | record i =>
    obtain ⟨tx, hi, hstep⟩ := Option.bind_eq_some_iff.mp hstep
    obtain ⟨tx', hnext, rfl⟩ := Option.map_eq_some_iff.mp hstep
    exact inv_record h hi (hok tx hi) hnext
  | commit i =>
    obtain ⟨tx, hi, hstep⟩ := Option.bind_eq_some_iff.mp hstep
    split at hstep
    · rename_i hidle
      cases hstep
      apply inv_end h hi (h.past.append (h.pending tx (List.mem_of_getElem? hi)))
      rw [live_append, Tx.load, hidle]
      omega
    · cases hstep
  | abort i =>
    obtain ⟨tx, hi, rfl⟩ := Option.map_eq_some_iff.mp hstep
    exact inv_end h hi h.past (Nat.le_add_right _ _)
  | other keep added =>
    cases hstep
    exact inv_other h keep added

theorem inv_init (clock : ℤ) : Inv g (.init clock) where
  single := Nat.zero_le _
  waits _ ht := absurd ht List.not_mem_nil
  past _ he := absurd he List.not_mem_nil
  pending _ ht := absurd ht List.not_mem_nil
  bound := Nat.zero_le _

end Steps

/-- A gate that allows one request in an hour; the log accepts events five seconds ahead. -/
def onePerHour : Gate where
  action := 1
  windowStart now := now - 3600
  windowStart_mono := fun _ _ h => Int.sub_le_sub_right h _
  max := 1
  maxFutureSkew := 5
  maxBackdate := 86400

/-- A transaction that makes one call. -/
def reserveAlone (call : Reserve) : List LogEvent :=
  [.begin false, .call 0 call, .lock 0, .decide 0, .record 0, .commit 0]

theorem punctual_reserveAlone :
    Along (reserveStep onePerHour) Punctual (.init 100) (reserveAlone ⟨none, none, true, true⟩) := by
  refine ⟨trivial, fun _ h => ?_⟩
  cases h
  refine ⟨trivial, fun _ h => ?_⟩
  cases h
  refine ⟨trivial, fun _ h => ?_⟩
  cases h
  -- the decision is made without a snapshot
  refine ⟨fun tx htx hkeeps => ?_, fun _ h => ?_⟩
  · cases htx
    cases hkeeps
  cases h
  -- the record has no time of its own
  refine ⟨fun tx htx c hc t ht => ?_, fun _ h => ?_⟩
  · cases htx
    cases hc
    cases ht
  cases h
  exact ⟨trivial, fun _ _ => trivial⟩

/-- Two calls at the instant 100 for the instant 105, one after the other, and the time until then. -/
def aheadRun : List LogEvent :=
  reserveAlone ⟨some 105, none, true, true⟩ ++ reserveAlone ⟨some 105, none, true, true⟩ ++ [.tick 5]

end PgAuthz.ActionLog
