import Mathlib.Tactic.Common

/-!
# Runs of a transition system

A transition system is a partial step function on states and events. A run is a list of events each
of which can happen; what every step keeps, every run keeps.

## Main definitions

* `run step s es`: the state after the events `es`
* `Keeps step I`: a step from a state in `I` leads to a state in `I`
* `Along step ok s es`: every step of the run meets the condition `ok`

## Main results

* `Keeps.run`: a run from a state in `I` leads to a state in `I`
* `Along.run`: so does a run along a condition under which every step keeps `I`
* `Along.of_inv`: such a run is also along what holds in the states of `I`
* `run_rel`: a transitive relation between the states of every step holds between the ends of a run
* `split_of_getElem?`: replacing or removing one of a list of parties
-/

namespace Transition

variable {S E : Type} {step : S → E → Option S}

/-- The state after a list of events, unless one of them cannot happen. -/
def run (step : S → E → Option S) : S → List E → Option S
  | s, [] => some s
  | s, e :: es => (step s e).bind fun s' => run step s' es

/-- A step from a state in `I` leads to a state in `I`. -/
def Keeps (step : S → E → Option S) (I : S → Prop) : Prop :=
  ∀ s e s', I s → step s e = some s' → I s'

theorem run_cons {s s' : S} {e : E} {es : List E} :
    run step s (e :: es) = some s' ↔ ∃ s₁, step s e = some s₁ ∧ run step s₁ es = some s' := by
  rw [run, Option.bind_eq_some_iff]

theorem run_append {s s' : S} {es es' : List E} :
    run step s (es ++ es') = some s' ↔ ∃ s₁, run step s es = some s₁ ∧ run step s₁ es' = some s' := by
  induction es generalizing s with
  | nil => simp [run]
  | cons e es ih =>
    rw [List.cons_append, run_cons]
    simp only [ih, run_cons]
    exact ⟨fun ⟨s₁, h₁, s₂, h₂, h⟩ => ⟨s₂, ⟨s₁, h₁, h₂⟩, h⟩,
      fun ⟨s₂, ⟨s₁, h₁, h₂⟩, h⟩ => ⟨s₁, h₁, s₂, h₂, h⟩⟩

/-- **A run keeps what every step keeps.** -/
theorem Keeps.run {I : S → Prop} (hI : Keeps step I) {s s' : S} {es : List E} (hs : I s)
    (hrun : run step s es = some s') : I s' := by
  induction es generalizing s with
  | nil =>
    cases hrun
    exact hs
  | cons e es ih =>
    obtain ⟨s₁, hstep, hrun⟩ := run_cons.mp hrun
    exact ih (hI s e s₁ hs hstep) hrun

/-- Every step of the run meets the condition `ok`. -/
def Along (step : S → E → Option S) (ok : S → E → Prop) : S → List E → Prop
  | _, [] => True
  | s, e :: es => ok s e ∧ ∀ s', step s e = some s' → Along step ok s' es

instance decidableAlong {ok : S → E → Prop} [∀ s e, Decidable (ok s e)] :
    (s : S) → (es : List E) → Decidable (Along step ok s es)
  | _, [] => .isTrue trivial
  | s, e :: es =>
    match hstep : step s e with
    | none => decidable_of_iff (ok s e) (by simp [Along, hstep])
    | some s' =>
      have : Decidable (Along step ok s' es) := decidableAlong s' es
      decidable_of_iff (ok s e ∧ Along step ok s' es) (by simp [Along, hstep])

/-- A step that happens, and the rest of the run. -/
theorem Along.cons {ok : S → E → Prop} {s s₁ : S} {e : E} {es : List E} (hstep : step s e = some s₁)
    (hok : ok s e) (h : Along step ok s₁ es) : Along step ok s (e :: es) := by
  refine ⟨hok, fun s' hs' => ?_⟩
  obtain rfl := Option.some.inj (hstep.symm.trans hs')
  exact h

theorem Along.mono {ok ok' : S → E → Prop} (h : ∀ s e, ok s e → ok' s e) {s : S} {es : List E}
    (hok : Along step ok s es) : Along step ok' s es := by
  induction es generalizing s with
  | nil => trivial
  | cons e es ih => exact ⟨h s e hok.1, fun s' hs' => ih (hok.2 s' hs')⟩

theorem Along.and {ok ok' : S → E → Prop} {s : S} {es : List E} (h : Along step ok s es)
    (h' : Along step ok' s es) : Along step (fun s e => ok s e ∧ ok' s e) s es := by
  induction es generalizing s with
  | nil => trivial
  | cons e es ih => exact ⟨⟨h.1, h'.1⟩, fun s' hs' => ih (h.2 s' hs') (h'.2 s' hs')⟩

/-- A condition on the events alone. -/
theorem along_of_forall {ok : E → Prop} {s : S} {es : List E} (h : ∀ e ∈ es, ok e) :
    Along step (fun _ e => ok e) s es := by
  induction es generalizing s with
  | nil => trivial
  | cons e es ih =>
    exact ⟨h e List.mem_cons_self, fun _ _ => ih fun e' he' => h e' (List.mem_cons_of_mem e he')⟩

/-- A run along a condition, and another one from where it leads. -/
theorem along_append {ok : S → E → Prop} {s : S} {es es' : List E} :
    Along step ok s (es ++ es') ↔
      Along step ok s es ∧ ∀ s', Transition.run step s es = some s' → Along step ok s' es' := by
  induction es generalizing s with
  | nil =>
    constructor
    · rintro h
      refine ⟨trivial, fun s' hs' => ?_⟩
      cases hs'
      exact h
    · exact fun h => h.2 s rfl
  | cons e es ih =>
    constructor
    · intro h
      refine ⟨⟨h.1, fun s₁ h₁ => (ih.mp (h.2 s₁ h₁)).1⟩, fun s' hrun => ?_⟩
      obtain ⟨s₁, h₁, hrun⟩ := run_cons.mp hrun
      exact (ih.mp (h.2 s₁ h₁)).2 s' hrun
    · rintro ⟨h, h'⟩
      refine ⟨h.1, fun s₁ h₁ => ih.mpr ⟨h.2 s₁ h₁, fun s' hrun => ?_⟩⟩
      exact h' s' (run_cons.mpr ⟨s₁, h₁, hrun⟩)

/-- **A run along a condition keeps what every step that meets the condition keeps.** -/
theorem Along.run {ok : S → E → Prop} {I : S → Prop}
    (hI : ∀ s e s', I s → ok s e → step s e = some s' → I s') {s s' : S} {es : List E}
    (hok : Along step ok s es) (hs : I s) (hrun : run step s es = some s') : I s' := by
  induction es generalizing s with
  | nil =>
    cases hrun
    exact hs
  | cons e es ih =>
    obtain ⟨s₁, hstep, hrun⟩ := run_cons.mp hrun
    exact ih (hok.2 s₁ hstep) (hI s e s₁ hs hok.1 hstep) hrun

/-- **A run along a condition also runs along what the condition gives in every state of the
invariant.** -/
theorem Along.of_inv {ok good : S → E → Prop} {I : S → Prop}
    (hI : ∀ s e s', I s → ok s e → step s e = some s' → I s') (hgood : ∀ s e, I s → ok s e → good s e)
    {s : S} {es : List E} (hok : Along step ok s es) (hs : I s) : Along step good s es := by
  induction es generalizing s with
  | nil => trivial
  | cons e es ih =>
    exact ⟨hgood s e hs hok.1, fun s' h => ih (hok.2 s' h) (hI s e s' hs hok.1 h)⟩

/-- **A transitive relation between the states of every step holds between the ends of a run.** -/
theorem run_rel {I : S → Prop} (hI : Keeps step I) {R : S → S → Prop} (hrefl : ∀ s, R s s)
    (htrans : ∀ a b c, R a b → R b c → R a c)
    (hstep : ∀ s e s', I s → step s e = some s' → R s s') {s s' : S} {es : List E} (hs : I s)
    (hrun : Transition.run step s es = some s') : R s s' := by
  induction es generalizing s with
  | nil =>
    cases hrun
    exact hrefl _
  | cons e es ih =>
    obtain ⟨s₁, h₁, hrun⟩ := run_cons.mp hrun
    exact htrans s s₁ s' (hstep s e s₁ hs h₁) (ih (hI s e s₁ hs h₁) hrun)

/-- A list of parties around the place of one of them. -/
theorem split_of_getElem? {α : Type} {l : List α} {i : ℕ} {a : α} (h : l[i]? = some a) :
    ∃ l₁ l₂, l = l₁ ++ a :: l₂ ∧ (∀ b, l.set i b = l₁ ++ b :: l₂) ∧ l.eraseIdx i = l₁ ++ l₂ := by
  obtain ⟨hi, rfl⟩ := List.getElem?_eq_some_iff.mp h
  refine ⟨l.take i, l.drop (i + 1), ?_, fun b => ?_, ?_⟩
  · rw [← List.drop_eq_getElem_cons hi, List.take_append_drop]
  · rw [List.set_eq_take_append_cons_drop, if_pos hi]
  · rw [List.eraseIdx_eq_take_drop_succ]

end Transition
