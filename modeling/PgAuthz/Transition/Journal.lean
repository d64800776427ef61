import Mathlib.Data.List.Induction
import PgAuthz.Transition.Runs

/-!
# Journals

A journal is a list of entries that a transition system only adds to, with a way to read it: a view of the
state, and what an entry makes of a view. A journal is complete along a condition when every step that
meets the condition appends the entries that turn the view before it into the view after it. Then the
journal of a whole run, read from the view at its start, gives the view at its end.

What a journal tells can be traced back to single entries. If a view has a property at the end that it
did not have at the start, then some entry brought it about, and none of the entries behind that one took
it away again.

## Main definitions

* `Journal`: the entries, the view and the reading of one entry
* `Journal.Complete`: every step appends what it does to the view

## Main results

* `Journal.Complete.replays`: the journal of a run leads from the view at its start to the one at its end
* `exists_last_cause`: a property of the view goes back to an entry that nothing later undid
-/

namespace Transition

variable {S E A V : Type}

/-- The entries of a state, what they are about, and how an entry changes it. -/
structure Journal (S A V : Type) where
  entries : S → List A
  view : S → V
  read : V → A → V

/-- The entries of one state go on with those of another, which turn one view into the other. -/
def Journal.Extends (J : Journal S A V) (s s' : S) : Prop :=
  ∃ new, J.entries s' = J.entries s ++ new ∧ J.view s' = new.foldl J.read (J.view s)

theorem Journal.Extends.refl (J : Journal S A V) (s : S) : J.Extends s s :=
  ⟨[], (List.append_nil _).symm, rfl⟩

/-- No entry and no change of the view. -/
theorem Journal.Extends.of_eq {J : Journal S A V} {s s' : S} (hentries : J.entries s' = J.entries s)
    (hview : J.view s' = J.view s) : J.Extends s s' :=
  ⟨[], by rw [hentries, List.append_nil], hview⟩

theorem Journal.Extends.trans {J : Journal S A V} {s s' s'' : S} (h : J.Extends s s')
    (h' : J.Extends s' s'') : J.Extends s s'' := by
  obtain ⟨new, hentries, hview⟩ := h
  obtain ⟨new', hentries', hview'⟩ := h'
  refine ⟨new ++ new', ?_, ?_⟩
  · rw [hentries', hentries, List.append_assoc]
  · rw [hview', hview, List.foldl_append]

/-- Every step from a state of the invariant that meets the condition appends what it does. -/
def Journal.Complete (J : Journal S A V) (step : S → E → Option S) (I : S → Prop) (ok : S → E → Prop) :
    Prop :=
  ∀ s e s', I s → ok s e → step s e = some s' → J.Extends s s'

/-- **The journal of a run leads from the view at its start to the view at its end.** -/
theorem Journal.Complete.replays {J : Journal S A V} {step : S → E → Option S} {I : S → Prop}
    {ok : S → E → Prop} (hJ : J.Complete step I ok) (hI : Keeps step I) {s s' : S} {es : List E}
    (hs : I s) (hok : Along step ok s es) (hrun : run step s es = some s') : J.Extends s s' := by
  induction es generalizing s with
  | nil =>
    cases hrun
    exact .refl J _
  | cons e es ih =>
    obtain ⟨s₁, hstep, hrun⟩ := run_cons.mp hrun
    exact (hJ s e s₁ hs hok.1 hstep).trans (ih (hI s e s₁ hs hstep) (hok.2 s₁ hstep) hrun)

/-- **A property that a list of entries brings about goes back to an entry that no later one undid.** -/
theorem exists_last_cause {read : V → A → V} {P : V → Prop} {adds removes : A → Prop}
    (hadds : ∀ v a, ¬ P v → P (read v a) → adds a) (hremoves : ∀ v a, removes a → ¬ P (read v a))
    {v : V} {as : List A} (hv : ¬ P v) (h : P (as.foldl read v)) :
    ∃ before a after, as = before ++ a :: after ∧ adds a ∧ ∀ b ∈ after, ¬ removes b := by
  induction as using List.reverseRecOn with
  | nil => exact absurd h hv
  | append_singleton as a ih =>
    rw [List.foldl_append, List.foldl_cons, List.foldl_nil] at h
    by_cases hbefore : P (as.foldl read v)
    · obtain ⟨before, c, after, hsplit, hc, hafter⟩ := ih hbefore
      refine ⟨before, c, after ++ [a], ?_, hc, ?_⟩
      · rw [hsplit, List.append_assoc, List.cons_append]
      · intro b hb
        rcases List.mem_append.mp hb with hb | hb
        · exact hafter b hb
        · obtain rfl := List.mem_singleton.mp hb
          exact fun hr => hremoves _ _ hr h
    · exact ⟨as, a, [], rfl, hadds _ _ hbefore h, List.forall_mem_nil _⟩

end Transition
