import Mathlib.Data.Nat.Basic
import Mathlib.Order.Basic
import PgAuthz.Transition.Runs

/-!
# Readers of a versioned source

A source commits one state after another and counts a version up when a part of it changes, its content.
Readers keep copies of the content. Each of them reads from a server of its own, which shows the committed
states in their order, at its own pace. A reader takes a copy in two reads: the version first, and if it
does not have that one, then the content, which it keeps under the version that it read before. Between
the two reads, states may be committed and shown, the reads may fail, and the reader may be started anew.

A copy is therefore at least as new as its version says. It is also not newer than what the server shows,
so a reader whose version is the one that its server shows has the content that its server shows.

## Main definitions

* `Copying`: the version and the content of a state, and what a reader makes of them
* `Reader.move`, `step`: the moves of a reader, and the transition system of a source with its readers
* `Copying.Precedes`: a state that comes later has a later version or the same content
* `Reader.Sound`: what holds of a reader and its server between any two moves
* `Reader.poll`: the two reads without anything between them

## Main results

* `Holds.step`, `Holds.run`: the readers stay sound along a run
* `Reader.Sound.copies_of_label`: what the version of a copy says about the copy
* `Reader.Sound.copies_poll`: one poll is enough
-/

namespace Polling

open Transition

variable {S C H D E : Type}

/-- The version of a state and its content; the copy of a reader that has just started, the version of a
copy, whether a reader that sees a version leaves its copy, and what replaces the copy. -/
structure Copying (S C H : Type) where
  version : S → ℕ
  content : S → C
  fresh : H
  label : H → ℕ
  current : H → ℕ → Bool
  load : H → ℕ → C → H

/-- A server with its reader: the state that it shows, the states that it will show next, the copy, and
the version that was read if the content is still to be read. -/
structure Reader (S H : Type) where
  shown : S
  queue : List S
  held : H
  seen : Option ℕ

/-- What a server and its reader do. -/
inductive Move
  | replay | readVersion | readContent | fail | restart
deriving DecidableEq, Repr

/-- A move of a reader. Two polls of one reader do not overlap. -/
def Reader.move (σ : Copying S C H) (r : Reader S H) : Move → Option (Reader S H)
  | .replay => match r.queue with
    | [] => none
    | s :: rest => some { r with shown := s, queue := rest }
  | .readVersion =>
    if r.seen.isSome then none
    else if σ.current r.held (σ.version r.shown) then some r
    else some { r with seen := some (σ.version r.shown) }
  | .readContent => r.seen.map fun v =>
    { r with held := σ.load r.held v (σ.content r.shown), seen := none }
  | .fail => some { r with seen := none }
  | .restart => some { r with held := σ.fresh, seen := none }

/-- The source with its readers. -/
structure State (S H D : Type) where
  source : S
  readers : D → Reader S H

/-- A commit of the source, or a move of one of the readers. -/
inductive Event (E D : Type)
  | commit (e : E)
  | move (d : D) (m : Move)

/-- A committed state joins the queue of every server. -/
def Reader.push (r : Reader S H) (s : S) : Reader S H := { r with queue := r.queue ++ [s] }

/-- One event. -/
def step [DecidableEq D] (σ : Copying S C H) (commit : S → E → Option S) (s : State S H D) :
    Event E D → Option (State S H D)
  | .commit e => (commit s.source e).map fun source => ⟨source, fun d => (s.readers d).push source⟩
  | .move d m => ((s.readers d).move σ m).map fun r => { s with readers := Function.update s.readers d r }

/-- A source at a state that every server shows, with readers that have just started. -/
def State.init (σ : Copying S C H) (D : Type) (s : S) : State S H D := ⟨s, fun _ => ⟨s, [], σ.fresh, none⟩⟩

/-! ## The order of the states -/

/-- One state comes before another: the version does not go down, and as long as it stays, so does the
content. -/
structure Copying.Precedes (σ : Copying S C H) (s s' : S) : Prop where
  version_le : σ.version s ≤ σ.version s'
  content_eq : σ.version s = σ.version s' → σ.content s = σ.content s'

theorem Copying.Precedes.refl (σ : Copying S C H) (s : S) : σ.Precedes s s := ⟨le_rfl, fun _ => rfl⟩

theorem Copying.Precedes.trans {σ : Copying S C H} {s s' s'' : S} (h : σ.Precedes s s')
    (h' : σ.Precedes s' s'') : σ.Precedes s s'' := by
  refine ⟨h.version_le.trans h'.version_le, fun heq => ?_⟩
  -- a version between two equal ones is the same
  have hleft : σ.version s = σ.version s' :=
    le_antisymm h.version_le (heq ▸ h'.version_le)
  exact (h.content_eq hleft).trans (h'.content_eq (hleft ▸ heq))

/-- What a copy is a copy of, with the laws of replacing it. -/
structure Lawful (σ : Copying S C H) (Copies : H → C → Prop) : Prop where
  label_load : ∀ h v c, σ.label (σ.load h v c) = v
  copies_load : ∀ h v c, Copies (σ.load h v c) c
  label_of_current : ∀ h v, σ.current h v = true → σ.label h = v

/-! ## Sound readers -/

variable {σ : Copying S C H} {Copies : H → C → Prop} {first source : S} {r r' : Reader S H}

/-- What holds of a server and its reader: the server shows the states in their order, up to the one of
the source, and the copy is of a state that it showed, with a version that this state had reached. -/
structure Reader.Sound (σ : Copying S C H) (Copies : H → C → Prop) (first source : S) (r : Reader S H) :
    Prop where
  first : σ.Precedes first r.shown
  ahead : (r.shown :: r.queue).Pairwise σ.Precedes
  last : (r.shown :: r.queue).getLast (List.cons_ne_nil _ _) = source
  held : ∃ s, σ.Precedes s r.shown ∧ σ.label r.held ≤ σ.version s ∧ Copies r.held (σ.content s)
  seen : ∀ v ∈ r.seen, v ≤ σ.version r.shown

/-- The copy of a reader that has just started is of the first state. -/
structure Fresh (σ : Copying S C H) (Copies : H → C → Prop) (first : S) : Prop where
  label_le : σ.label σ.fresh ≤ σ.version first
  copies : Copies σ.fresh (σ.content first)

theorem Reader.Sound.init (h : Fresh σ Copies first) : Reader.Sound σ Copies first first
    ⟨first, [], σ.fresh, none⟩ where
  first := .refl σ first
  ahead := List.pairwise_singleton _ _
  last := rfl
  held := ⟨first, .refl σ first, h.label_le, h.copies⟩
  seen := nofun

/-- Everything that a server shows comes before the state of the source. -/
theorem Reader.Sound.precedes (h : r.Sound σ Copies first source) {s : S} (hs : s ∈ r.shown :: r.queue) :
    σ.Precedes s source := by
  obtain ⟨before, hsplit⟩ : ∃ before, r.shown :: r.queue = before ++ [source] :=
    ⟨_, by rw [← h.last, List.dropLast_concat_getLast]⟩
  have hahead := h.ahead
  rw [hsplit] at hahead hs
  rcases List.mem_append.mp hs with hs | hs
  · exact (List.pairwise_append.mp hahead).2.2 s hs source (List.mem_singleton_self _)
  · rw [List.mem_singleton.mp hs]
    exact .refl σ source

theorem Reader.Sound.push (h : r.Sound σ Copies first source) {source' : S}
    (hnext : σ.Precedes source source') : (r.push source').Sound σ Copies first source' where
  first := h.first
  ahead := by
    show (r.shown :: r.queue ++ [source']).Pairwise σ.Precedes
    refine List.pairwise_append.mpr ⟨h.ahead, List.pairwise_singleton _ _, fun s hs s' hs' => ?_⟩
    rw [List.mem_singleton.mp hs']
    exact (h.precedes hs).trans hnext
  last := by
    show (r.shown :: r.queue ++ [source']).getLast _ = source'
    exact List.getLast_concat
  held := h.held
  seen := h.seen

/-- **Every move keeps a reader sound.** -/
theorem Reader.Sound.move (h : r.Sound σ Copies first source) (hσ : Lawful σ Copies)
    (hfresh : Fresh σ Copies first) {m : Move} (hmove : r.move σ m = some r') :
    r'.Sound σ Copies first source := by
  cases m with
  | replay =>
    simp only [Reader.move] at hmove
    cases hqueue : r.queue with
    | nil => simp [hqueue] at hmove
    | cons s rest =>
      simp only [hqueue] at hmove
      obtain rfl := Option.some.inj hmove
      have hahead := h.ahead
      have hlast := h.last
      simp only [hqueue] at hahead hlast
      have hs : σ.Precedes r.shown s := List.rel_of_pairwise_cons hahead List.mem_cons_self
      refine ⟨h.first.trans hs, hahead.of_cons, ?_, ?_, fun v hv => (h.seen v hv).trans hs.version_le⟩
      · rw [← hlast, List.getLast_cons (List.cons_ne_nil s rest)]
      · obtain ⟨s₀, hbefore, hlabel, hcopies⟩ := h.held
        exact ⟨s₀, hbefore.trans hs, hlabel, hcopies⟩
  | readVersion =>
    simp only [Reader.move] at hmove
    split at hmove
    · cases hmove
    split at hmove
    · obtain rfl := Option.some.inj hmove
      exact h
    · obtain rfl := Option.some.inj hmove
      refine { h with seen := ?_ }
      rintro _ ⟨⟩
      exact le_rfl
  | readContent =>
    obtain ⟨v, hv, rfl⟩ := Option.map_eq_some_iff.mp hmove
    refine { h with held := ⟨r.shown, .refl σ _, ?_, hσ.copies_load _ _ _⟩, seen := nofun }
    rw [hσ.label_load]
    exact h.seen v hv
  | fail =>
    obtain rfl := Option.some.inj hmove
    exact { h with seen := nofun }
  | restart =>
    obtain rfl := Option.some.inj hmove
    exact { h with held := ⟨first, h.first, hfresh.label_le, hfresh.copies⟩, seen := nofun }

/-- The version of a copy is one that the server has shown. -/
theorem Reader.Sound.label_le (h : r.Sound σ Copies first source) : σ.label r.held ≤ σ.version r.shown := by
  obtain ⟨s, hs, hlabel, -⟩ := h.held
  exact hlabel.trans hs.version_le

/-- **A reader with the version that its server shows has the content that its server shows.** -/
theorem Reader.Sound.copies_of_label (h : r.Sound σ Copies first source)
    (hlabel : σ.label r.held = σ.version r.shown) : Copies r.held (σ.content r.shown) := by
  obtain ⟨s, hs, hle, hcopies⟩ := h.held
  have hversion : σ.version s = σ.version r.shown := le_antisymm hs.version_le (hlabel ▸ hle)
  exact hs.content_eq hversion ▸ hcopies

/-- A poll with nothing between its reads. -/
def Reader.poll (σ : Copying S C H) (r : Reader S H) : Reader S H :=
  if σ.current r.held (σ.version r.shown) then r
  else { r with held := σ.load r.held (σ.version r.shown) (σ.content r.shown), seen := none }

theorem Reader.poll_shown (σ : Copying S C H) (r : Reader S H) : (r.poll σ).shown = r.shown := by
  unfold Reader.poll
  split <;> rfl

/-- A poll is the two reads in succession, or the first one alone. -/
theorem Reader.run_poll (σ : Copying S C H) (hseen : r.seen = none) :
    run (Reader.move σ) r [.readVersion] = some (r.poll σ) ∨
      run (Reader.move σ) r [.readVersion, .readContent] = some (r.poll σ) := by
  unfold Reader.poll
  by_cases hcurrent : σ.current r.held (σ.version r.shown) = true
  · rw [if_pos hcurrent]
    refine .inl (run_cons.mpr ⟨r, ?_, rfl⟩)
    simp [Reader.move, hseen, hcurrent]
  · rw [if_neg hcurrent]
    refine .inr (run_cons.mpr ⟨{ r with seen := some (σ.version r.shown) }, ?_, rfl⟩)
    simp [Reader.move, hseen, hcurrent]

/-- **After a poll, the reader has the version and the content that its server shows.** -/
theorem Reader.Sound.copies_poll (h : r.Sound σ Copies first source) (hσ : Lawful σ Copies) :
    σ.label (r.poll σ).held = σ.version r.shown ∧ Copies (r.poll σ).held (σ.content r.shown) := by
  unfold Reader.poll
  split
  · rename_i hcurrent
    have hlabel := hσ.label_of_current _ _ hcurrent
    exact ⟨hlabel, h.copies_of_label hlabel⟩
  · exact ⟨hσ.label_load _ _ _, hσ.copies_load _ _ _⟩

/-- A server that has shown everything shows the state of the source. -/
theorem Reader.Sound.shown_eq (h : r.Sound σ Copies first source) (hqueue : r.queue = []) :
    r.shown = source := by
  have hlast := h.last
  simp only [hqueue] at hlast
  exact hlast

/-! ## Runs -/

variable [DecidableEq D] {commit : S → E → Option S} {I : S → Prop} {ok : S → E → Prop}
  {s s' : State S H D}

/-- The source keeps its invariant, and every reader is sound. -/
structure Holds (σ : Copying S C H) (Copies : H → C → Prop) (I : S → Prop) (first : S)
    (s : State S H D) : Prop where
  source : I s.source
  readers : ∀ d, (s.readers d).Sound σ Copies first s.source

/-- The condition on the commits of a run. -/
def Commits (ok : S → E → Prop) (s : State S H D) (e : Event E D) : Prop :=
  ∀ c, e = .commit c → ok s.source c

omit [DecidableEq D] in
theorem Holds.init (hfresh : Fresh σ Copies first) (hfirst : I first) :
    Holds σ Copies I first (State.init σ D first) :=
  ⟨hfirst, fun _ => .init hfresh⟩

/-- **Every event keeps the readers sound**, if the commits of the source are in order. -/
theorem Holds.step (h : Holds σ Copies I first s) (hσ : Lawful σ Copies) (hfresh : Fresh σ Copies first)
    (hcommit : ∀ t e t', I t → ok t e → commit t e = some t' → I t' ∧ σ.Precedes t t') {e : Event E D}
    (hok : Commits ok s e) (hstep : step σ commit s e = some s') : Holds σ Copies I first s' := by
  cases e with
  | commit c =>
    obtain ⟨source, hc, rfl⟩ := Option.map_eq_some_iff.mp hstep
    obtain ⟨hI, hnext⟩ := hcommit s.source c source h.source (hok c rfl) hc
    exact ⟨hI, fun d => (h.readers d).push hnext⟩
  | move d m =>
    obtain ⟨r, hmove, rfl⟩ := Option.map_eq_some_iff.mp hstep
    refine ⟨h.source, fun d' => ?_⟩
    show (Function.update s.readers d r d').Sound σ Copies first s.source
    rw [Function.update_apply]
    split
    · exact (h.readers d).move hσ hfresh hmove
    · exact h.readers d'

/-- **The readers stay sound along a run.** -/
theorem Holds.run (h : Holds σ Copies I first s) (hσ : Lawful σ Copies) (hfresh : Fresh σ Copies first)
    (hcommit : ∀ t e t', I t → ok t e → commit t e = some t' → I t' ∧ σ.Precedes t t')
    {es : List (Event E D)} (hok : Along (Polling.step σ commit) (Commits ok) s es)
    (hrun : Transition.run (Polling.step σ commit) s es = some s') : Holds σ Copies I first s' :=
  Along.run (fun _ _ _ h hok hstep => h.step hσ hfresh hcommit hok hstep) hok h hrun

end Polling
