import PgAuthz.Resolution.Stratified

/-!
# Rule systems that do not tell some questions apart

An equivalence of questions is kept by a rule system if the step takes sets that do not tell
equivalent questions apart to such sets. Then its least model does not tell them apart either: they
hold together.

## Main definitions

* `Blind E X`: the set does not tell equivalent questions apart
* `Keeps E R`: the step of the rule system keeps such sets

## Main results

* `blind_leastModel`: equivalent questions hold together
* `leastModel_congr`: rule systems with one step have one least model
-/

namespace Resolution

variable {Q : Type}

/-- The set holds equivalent questions together. -/
def Blind (E : Setoid Q) (X : Set Q) : Prop := ∀ {q q'}, E q q' → q ∈ X → q' ∈ X

theorem Blind.iff {E : Setoid Q} {X : Set Q} (h : Blind E X) {q q' : Q} (hq : E q q') :
    q ∈ X ↔ q' ∈ X :=
  ⟨h hq, h (E.symm hq)⟩

/-- The questions that hold together with all their equivalents. -/
def interior (E : Setoid Q) (X : Set Q) : Set Q := {q | ∀ q', E q q' → q' ∈ X}

theorem interior_subset (E : Setoid Q) (X : Set Q) : interior E X ⊆ X := fun q hq => hq q (E.refl q)

theorem blind_interior (E : Setoid Q) (X : Set Q) : Blind E (interior E X) :=
  fun hq h q'' hq' => h q'' (E.trans hq hq')

namespace RuleSystem

variable {R : RuleSystem Q} {E : Setoid Q}

/-- The step keeps the sets that do not tell equivalent questions apart. -/
def Keeps (E : Setoid Q) (R : RuleSystem Q) : Prop :=
  ∀ X N, Blind E X → Blind E N → Blind E (R.step X N)

theorem blind_masked (hK : Keeps E R) {M S : Set Q} (hM : Blind E M) (hS : Blind E S) :
    Blind E (R.masked M S) := by
  have hsub : R.masked M S ⊆ interior E (R.masked M S) := by
    refine masked_subset fun q hq hqS q' hqq' => mem_masked.mpr ⟨?_, fun h => hqS (hS (E.symm hqq') h)⟩
    exact R.step_mono M (interior_subset E _) (hK _ _ (blind_interior E _) hM hqq' hq)
  exact fun {q q'} hqq' hq => hsub hq q' hqq'

variable (L : R.Stratification)

theorem blind_stratum (hK : Keeps E R) (hlevel : ∀ {q q'}, E q q' → L.level q = L.level q')
    (k : ℕ) : Blind E (R.stratum L.level k) := by
  induction k with
  | zero => exact fun _ h => h
  | succ k ih =>
    refine blind_masked hK ih fun {q q'} hqq' hq => ?_
    show k < L.level q'
    rwa [← hlevel hqq']

/-- **Equivalent questions hold together**, when the step keeps the equivalence and they are of one
level. -/
theorem blind_leastModel (hK : Keeps E R) (hlevel : ∀ {q q'}, E q q' → L.level q = L.level q') :
    Blind E (R.leastModel L) := by
  intro q q' hqq' hq
  show q' ∈ R.stratum L.level (L.level q' + 1)
  rw [← hlevel hqq']
  exact blind_stratum L hK hlevel _ hqq' hq

/-- Rule systems with the same step have the same least model. -/
theorem leastModel_congr {R' : RuleSystem Q} (L' : R'.Stratification)
    (h : ∀ X N, R.step X N = R'.step X N) : R.leastModel L = R'.leastModel L' := by
  refine eq_leastModel L' ?_
  conv_lhs => rw [leastModel_eq_lfp L]
  exact masked_congr_step h _ _

/-- What holds for a set that the rules do not leave holds of the least model. -/
theorem leastModel_induction {P : Set Q}
    (h : ∀ q, q ∈ R.step (P ∩ R.leastModel L) (R.leastModel L) → q ∈ P) : R.leastModel L ⊆ P := by
  have hsub : R.masked (R.leastModel L) ∅ ⊆ P ∩ R.leastModel L := by
    refine masked_subset fun q hq _ => ⟨h q hq, ?_⟩
    rw [leastModel_eq_lfp L]
    refine mem_masked.mpr ⟨R.step_mono _ ?_ hq, id⟩
    rw [← leastModel_eq_lfp L]
    exact Set.inter_subset_right
  intro q hq
  rw [leastModel_eq_lfp L] at hq
  exact (hsub hq).1

end RuleSystem

end Resolution
