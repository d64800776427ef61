import PgAuthz.Transition.Locking

/-!
# Changes that are checked under locks

A change reads what it needs for its check beforehand. Its transaction then takes locks, for which it
waits while another one holds conflicting ones, asks a gate with what was read, and commits later, or
aborts. Between the two moments other transactions may commit, and the world may change from outside.

A change is authorised when it commits if its gate implies that it is authorised, and if whatever
happens while it is open keeps it authorised.

## Main definitions

* `System`, `step`: changes with their locks, gate and effect, and the transition system of them
* `CommitsAuthorised`: a commit is of a change that is authorised in the state before it
* `Keeping`: the conditions under which a step keeps open changes authorised

## Main results

* `Keeping.along`: along such steps every commit is of an authorised change
-/

namespace Gatekeeping

open Locking (Conflict Mode)
open Transition

variable {W C P K X : Type}

/-- Changes with what they read beforehand, their locks, their gate and their effect, and what changes
the world from outside. -/
structure System (W C P K X : Type) where
  plan : W → C → Option P
  locks : C → List (K × Mode)
  gate : W → C → P → Bool
  effect : W → C → Option W
  outside : W → X → Option W

/-- The world, the changes that wait for their locks with what they have read, and the open ones. -/
structure State (W C P : Type) where
  world : W
  waiting : List (C × P)
  running : List C

/-- What happens: a change is planned, takes its locks and passes its gate, commits or is given up; or
the world changes from outside. -/
inductive Event (C X : Type)
  | plan (c : C)
  | check (i : ℕ)
  | commit (i : ℕ)
  | abort (i : ℕ)
  | outside (x : X)
deriving DecidableEq, Repr

/-- No two locks of the changes conflict. -/
def Compatible (σ : System W C P K X) (c c' : C) : Prop :=
  ∀ a ∈ σ.locks c, ∀ b ∈ σ.locks c', ¬Conflict a b

instance [DecidableEq K] (σ : System W C P K X) (c c' : C) : Decidable (Compatible σ c c') :=
  inferInstanceAs (Decidable (∀ a ∈ σ.locks c, ∀ b ∈ σ.locks c', ¬Conflict a b))

theorem Compatible.symm {σ : System W C P K X} {c c' : C} (h : Compatible σ c c') : Compatible σ c' c :=
  fun a ha b hb hconf => h b hb a ha hconf.symm

/-- One event. -/
def step [DecidableEq K] (σ : System W C P K X) (s : State W C P) : Event C X → Option (State W C P)
  | .plan c => (σ.plan s.world c).map fun p => { s with waiting := s.waiting ++ [(c, p)] }
  | .check i => s.waiting[i]?.bind fun (c, p) =>
    if (∀ c' ∈ s.running, Compatible σ c c') ∧ σ.gate s.world c p = true then
      some { s with waiting := s.waiting.eraseIdx i, running := s.running ++ [c] }
    else none
  | .commit i => s.running[i]?.bind fun c =>
    (σ.effect s.world c).map fun w => { s with world := w, running := s.running.eraseIdx i }
  | .abort i => if i < s.running.length then some { s with running := s.running.eraseIdx i } else none
  | .outside x => (σ.outside s.world x).map fun w => { s with world := w }

/-- A commit is of a change that is authorised in the state before it. -/
def CommitsAuthorised (auth : W → C → Prop) (s : State W C P) (e : Event C X) : Prop :=
  ∀ i c, e = .commit i → s.running[i]? = some c → auth s.world c

/-- Under the condition `ok` the steps keep an invariant `I` of the world and every open change
authorised. -/
structure Keeping [DecidableEq K] (σ : System W C P K X) (auth : W → C → Prop) (I : W → Prop)
    (ok : State W C P → Event C X → Prop) : Prop where
  check : ∀ s i c p, I s.world → ok s (.check i) → s.waiting[i]? = some (c, p) →
    σ.gate s.world c p = true → auth s.world c
  commit : ∀ s i c w', I s.world → ok s (.commit i) → s.running[i]? = some c → auth s.world c →
    σ.effect s.world c = some w' →
    I w' ∧ ∀ c' ∈ s.running.eraseIdx i, Compatible σ c c' → auth s.world c' → auth w' c'
  outside : ∀ s x w', I s.world → ok s (.outside x) → σ.outside s.world x = some w' →
    I w' ∧ ∀ c ∈ s.running, auth s.world c → auth w' c

/-- What every step keeps: the open changes are authorised, and no two of them conflict. -/
structure Inv (σ : System W C P K X) (auth : W → C → Prop) (I : W → Prop) (s : State W C P) : Prop where
  world : I s.world
  running : ∀ c ∈ s.running, auth s.world c
  compatible : s.running.Pairwise (Compatible σ)

section Runs

variable [DecidableEq K] {σ : System W C P K X} {auth : W → C → Prop} {I : W → Prop}
  {ok : State W C P → Event C X → Prop} {s s' : State W C P} {e : Event C X}

theorem Keeping.inv_check (hk : Keeping σ auth I ok) (hinv : Inv σ auth I s) {i : ℕ} (hok : ok s (.check i))
    (h : step σ s (.check i) = some s') : Inv σ auth I s' := by
  obtain ⟨⟨c, p⟩, hwait, h⟩ := Option.bind_eq_some_iff.mp h
  obtain ⟨hgate, h⟩ := Option.ite_none_right_eq_some.mp h
  obtain rfl := Option.some.inj h
  refine ⟨hinv.world, ?_, ?_⟩
  · intro c' hc'
    rcases List.mem_append.mp hc' with hc' | hc'
    · exact hinv.running c' hc'
    · obtain rfl := List.mem_singleton.mp hc'
      exact hk.check s i c' p hinv.world hok hwait hgate.2
  · refine List.pairwise_append.mpr ⟨hinv.compatible, List.pairwise_singleton _ _, ?_⟩
    intro c' hc' d hd
    obtain rfl := List.mem_singleton.mp hd
    exact (hgate.1 c' hc').symm

theorem Keeping.inv_commit (hk : Keeping σ auth I ok) (hinv : Inv σ auth I s) {i : ℕ} (hok : ok s (.commit i))
    (h : step σ s (.commit i) = some s') : Inv σ auth I s' := by
  obtain ⟨c, hrun, h⟩ := Option.bind_eq_some_iff.mp h
  obtain ⟨w', heffect, rfl⟩ := Option.map_eq_some_iff.mp h
  have hmem : c ∈ s.running := List.mem_of_getElem? hrun
  obtain ⟨hI, hothers⟩ := hk.commit s i c w' hinv.world hok hrun (hinv.running c hmem) heffect
  refine ⟨hI, fun c' hc' => ?_, hinv.compatible.sublist (List.eraseIdx_sublist ..)⟩
  -- the others held no lock that conflicts with those of the change
  have hcompat : Compatible σ c c' := by
    obtain ⟨l₁, l₂, heq, -, herase⟩ := split_of_getElem? hrun
    have hpair := hinv.compatible
    rw [heq, List.pairwise_append, List.pairwise_cons] at hpair
    rw [herase] at hc'
    rcases List.mem_append.mp hc' with hc' | hc'
    · exact (hpair.2.2 c' hc' c List.mem_cons_self).symm
    · exact hpair.2.1.1 c' hc'
  exact hothers c' hc' hcompat (hinv.running c' (List.mem_of_mem_eraseIdx hc'))

/-- **A step that meets the condition keeps the open changes authorised.** -/
theorem Keeping.inv_step (hk : Keeping σ auth I ok) (hinv : Inv σ auth I s) (hok : ok s e)
    (h : step σ s e = some s') : Inv σ auth I s' := by
  cases e with
  | plan c =>
    obtain ⟨p, -, rfl⟩ := Option.map_eq_some_iff.mp h
    exact ⟨hinv.world, hinv.running, hinv.compatible⟩
  | check i => exact hk.inv_check hinv hok h
  | commit i => exact hk.inv_commit hinv hok h
  | abort i =>
    obtain ⟨-, h⟩ := Option.ite_none_right_eq_some.mp h
    obtain rfl := Option.some.inj h
    exact ⟨hinv.world, fun c hc => hinv.running c (List.mem_of_mem_eraseIdx hc),
      hinv.compatible.sublist (List.eraseIdx_sublist ..)⟩
  | outside x =>
    obtain ⟨w', hw', rfl⟩ := Option.map_eq_some_iff.mp h
    obtain ⟨hI, hothers⟩ := hk.outside s x w' hinv.world hok hw'
    exact ⟨hI, fun c hc => hothers c hc (hinv.running c hc), hinv.compatible⟩

/-- **Along steps that meet the condition every commit is of an authorised change.** -/
theorem Keeping.along (hk : Keeping σ auth I ok) (hinv : Inv σ auth I s) {es : List (Event C X)}
    (hok : Along (step σ) ok s es) : Along (step σ) (CommitsAuthorised auth) s es := by
  induction es generalizing s with
  | nil => trivial
  | cons e es ih =>
    refine ⟨?_, fun s' hs' => ih (hk.inv_step hinv hok.1 hs') (hok.2 s' hs')⟩
    rintro i c rfl hc
    exact hinv.running c (List.mem_of_getElem? hc)

end Runs

end Gatekeeping
