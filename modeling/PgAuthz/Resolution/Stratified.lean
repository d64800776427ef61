import Mathlib
import PgAuthz.Resolution.CycleCut

/-!
# Rule systems with negation, and the search that decides them

A rule system says which questions hold, given what its positive premises and its negated premises
hold. When negation is stratified the system has one iterated least fixpoint: each stratum is the
least fixpoint of the rules over the strata below it. A depth-first search with a cycle cut, asking
the premises of a question in any order, decides this model.

## Main definitions

* `RuleSystem Q`: a step monotone in its positive premises and local to its premises
* `RuleSystem.Stratification`: levels that no premise raises and every negated premise lowers
* `RuleSystem.leastModel`: the iterated least fixpoint of a stratified system
* `RuleSystem.masked M S`: the least fixpoint of the rules over `M` with `S` held false
* `Implements R body`: the bodies compute the step of the rule system

## Main results

* `RuleSystem.leastModel_eq_lfp`: the least model is the least fixpoint of the rules over itself
* `RuleSystem.eq_leastModel`, `RuleSystem.leastModel_eq_iff`: it is the only such set
* `search_iff_leastModel`: the search decides the least model
* `properCuts_of_stratified`: in a stratified system every cut is proper
* `negationDepth_lt`: levels of a graph without a cycle through a negated edge
-/

namespace Resolution

open Relation (ReflTransGen TransGen)

variable {ε Q K : Type}

/-- A rule system: `step X N` holds what follows from the positive premises in `X` and the negated
premises outside `N`. -/
structure RuleSystem (Q : Type) where
  step : Set Q → Set Q → Set Q
  pos : Q → Q → Prop
  neg : Q → Q → Prop
  step_mono : ∀ N, Monotone fun X => step X N
  step_congr : ∀ {q X X' N N'}, (∀ r, pos q r → (r ∈ X ↔ r ∈ X')) →
    (∀ r, neg q r → (r ∈ N ↔ r ∈ N')) → (q ∈ step X N ↔ q ∈ step X' N')

namespace RuleSystem

/-- Levels that no premise raises and every negated premise lowers. -/
structure Stratification (R : RuleSystem Q) where
  level : Q → ℕ
  pos_le : ∀ {q r}, R.pos q r → level r ≤ level q
  neg_lt : ∀ {q r}, R.neg q r → level r < level q

variable (R : RuleSystem Q)

/-- The step over the fixed negated premises `N`, with the questions `S` held false. -/
def stepOver (N S : Set Q) : Set Q →o Set Q where
  toFun X := R.step X N \ S
  monotone' _ _ h := Set.sdiff_subset_sdiff_left (R.step_mono N h)

/-- The least fixpoint of the rules over `M` with the questions `S` held false. -/
def masked (M S : Set Q) : Set Q := (R.stepOver M S).lfp

/-- The questions decided by the strata below `k`. -/
def stratum (level : Q → ℕ) : ℕ → Set Q
  | 0 => ∅
  | k + 1 => R.masked (stratum level k) {q | k < level q}

/-- **The iterated least fixpoint**: what a question's own stratum decides. -/
def leastModel (L : R.Stratification) : Set Q := {q | q ∈ R.stratum L.level (L.level q + 1)}

variable {R}

/-! ## Least fixpoints with questions held false -/

theorem mem_masked {M S : Set Q} {q : Q} :
    q ∈ R.masked M S ↔ q ∈ R.step (R.masked M S) M ∧ q ∉ S := by
  have h : R.masked M S = R.step (R.masked M S) M \ S := (R.stepOver M S).map_lfp.symm
  conv_lhs => rw [h]
  exact Iff.rfl

theorem masked_subset {M S X : Set Q} (h : ∀ q, q ∈ R.step X M → q ∉ S → q ∈ X) :
    R.masked M S ⊆ X :=
  (R.stepOver M S).lfp_le fun q hq => h q hq.1 hq.2

/-- What holds depends only on the step. -/
theorem masked_congr_step {R' : RuleSystem Q} (h : ∀ X N, R.step X N = R'.step X N) (M S : Set Q) :
    R.masked M S = R'.masked M S := by
  have hstep : R.stepOver M S = R'.stepOver M S := OrderHom.ext _ _ (funext fun X =>
    congrArg (· \ S) (h X M))
  rw [masked, hstep, masked]

/-- A question not held false holds when it follows from what holds while it is held false. -/
theorem mem_masked_insert {M S : Set Q} {q : Q} (hq : q ∉ S) :
    q ∈ R.masked M S ↔ q ∈ R.step (R.masked M (insert q S)) M := by
  constructor
  · intro h
    by_contra hstep
    have hsub : R.masked M S ⊆ R.masked M (insert q S) := masked_subset fun r hr hrS =>
      mem_masked.mpr ⟨hr, by
        rintro (rfl | h)
        · exact hstep hr
        · exact hrS h⟩
    exact (mem_masked.mp (hsub h)).2 (Set.mem_insert q S)
  · intro h
    have hsub : R.masked M (insert q S) ⊆ R.masked M S := masked_subset fun r hr hrS =>
      mem_masked.mpr ⟨hr, fun h => hrS (Set.mem_insert_of_mem q h)⟩
    exact mem_masked.mpr ⟨R.step_mono M hsub h, hq⟩

/-- What holds depends only on what is reached through positive premises. -/
theorem masked_congr {M M' S S' C : Set Q} (hC : ∀ q ∈ C, ∀ r, R.pos q r → r ∈ C)
    (hM : ∀ q ∈ C, ∀ r, R.neg q r → (r ∈ M ↔ r ∈ M')) (hS : ∀ q ∈ C, (q ∈ S ↔ q ∈ S')) :
    ∀ q ∈ C, (q ∈ R.masked M S ↔ q ∈ R.masked M' S') := by
  have hsub : ∀ {M M' S S' : Set Q}, (∀ q ∈ C, ∀ r, R.neg q r → (r ∈ M ↔ r ∈ M')) →
      (∀ q ∈ C, (q ∈ S ↔ q ∈ S')) → ∀ q ∈ C, q ∈ R.masked M S → q ∈ R.masked M' S' := by
    intro M M' S S' hM hS
    have hsub : R.masked M S ⊆ {q | q ∈ C → q ∈ R.masked M' S'} := by
      refine masked_subset fun q hq hqS hqC => mem_masked.mpr ⟨?_, (hS q hqC).not.mp hqS⟩
      -- within `C` the candidate set is the other fixpoint
      exact (R.step_congr (fun r hr => by simp [hC q hqC r hr]) (hM q hqC)).mp hq
    exact fun q hqC hq => hsub hq hqC
  exact fun q hqC => ⟨hsub hM hS q hqC, hsub (fun q hq r hr => (hM q hq r hr).symm)
    (fun q hq => (hS q hq).symm) q hqC⟩

/-! ## The iterated least fixpoint -/

section Least

variable (L : R.Stratification)

/-- A stratum agrees with the least fixpoint over the least model on the levels below it. -/
theorem mem_stratum {k : ℕ} {q : Q} (hq : L.level q < k) :
    q ∈ R.stratum L.level k ↔ q ∈ R.masked (R.leastModel L) ∅ := by
  induction k using Nat.strong_induction_on generalizing q with
  | _ k ih =>
    obtain _ | k := k
    · exact absurd hq (Nat.not_lt_zero _)
    · have hagree : ∀ r, L.level r < k → (r ∈ R.stratum L.level k ↔ r ∈ R.leastModel L) := by
        intro r hr
        rw [ih k k.lt_succ_self hr]
        exact (ih (L.level r + 1) (by omega) (Nat.lt_succ_self _)).symm
      refine masked_congr (C := {q | L.level q ≤ k}) ?_ ?_ ?_ q (Nat.le_of_lt_succ hq)
      · exact fun q hq r hr => (L.pos_le hr).trans hq
      · exact fun q hq r hr => hagree r (lt_of_lt_of_le (L.neg_lt hr) hq)
      · intro q hq
        simpa using hq

/-- **The least model is the least fixpoint of the rules over itself.** -/
theorem leastModel_eq_lfp : R.leastModel L = R.masked (R.leastModel L) ∅ :=
  Set.ext fun _ => mem_stratum L (Nat.lt_succ_self _)

/-- A stratified system has no other set that is the least fixpoint of the rules over itself. -/
theorem eq_leastModel {M : Set Q} (hM : M = R.masked M ∅) : M = R.leastModel L := by
  have hagree : ∀ k q, L.level q < k → (q ∈ M ↔ q ∈ R.leastModel L) := by
    intro k
    induction k with
    | zero => exact fun q hq => absurd hq (Nat.not_lt_zero _)
    | succ k ih =>
      intro q hq
      have hleast : q ∈ R.leastModel L ↔ q ∈ R.masked (R.leastModel L) ∅ :=
        Set.ext_iff.mp (leastModel_eq_lfp L) q
      rw [Set.ext_iff.mp hM q, hleast]
      -- the two least fixpoints agree where their negated premises do
      refine masked_congr (C := {r | L.level r ≤ k}) ?_ ?_ ?_ q (Nat.le_of_lt_succ hq)
      · exact fun r hr s hs => (L.pos_le hs).trans hr
      · exact fun r hr s hs => ih s (lt_of_lt_of_le (L.neg_lt hs) hr)
      · exact fun _ _ => Iff.rfl
  exact Set.ext fun q => hagree _ q (Nat.lt_succ_self _)

/-- **A set is the least model** exactly when the rules conclude nothing new from it and derive all of it,
with the negated premises read over the set itself. -/
theorem leastModel_eq_iff {M : Set Q} :
    R.leastModel L = M ↔ R.step M M ⊆ M ∧ M ⊆ R.masked M ∅ := by
  constructor
  · rintro rfl
    refine ⟨fun q hq => ?_, (leastModel_eq_lfp L).subset⟩
    rw [leastModel_eq_lfp L]
    exact mem_masked.mpr ⟨by rwa [← leastModel_eq_lfp L], id⟩
  · rintro ⟨hclosed, hsub⟩
    exact (eq_leastModel L (hsub.antisymm (masked_subset fun q hq _ => hclosed hq))).symm

/-- What one system derives, a system with more to conclude derives. -/
theorem leastModel_subset_masked {R' : RuleSystem Q}
    (hle : ∀ X, R.step X (R.leastModel L) ⊆ R'.step X (R.leastModel L)) :
    R.leastModel L ⊆ R'.masked (R.leastModel L) ∅ := by
  conv_lhs => rw [leastModel_eq_lfp L]
  exact masked_subset fun q hq hnot => mem_masked.mpr ⟨hle _ hq, hnot⟩

/-- Questions that reach nothing held false hold as in the least model. -/
theorem mem_masked_of_level_lt {P : Set Q} {q : Q} (hP : ∀ p ∈ P, L.level q < L.level p) :
    q ∈ R.masked (R.leastModel L) P ↔ q ∈ R.leastModel L := by
  conv_rhs => rw [leastModel_eq_lfp]
  refine masked_congr (C := {r | L.level r ≤ L.level q}) ?_ ?_ ?_ q (Nat.le_refl _)
  · exact fun r hr s hs => (L.pos_le hs).trans hr
  · exact fun _ _ _ _ => Iff.rfl
  · intro r hr
    simpa using fun hrP => absurd (hP r hrP) (Nat.not_lt.mpr hr)

end Least

end RuleSystem

/-! ## The search decides the least model -/

/-- The bodies compute the step of the rule system: a body asks only premises, and it returns what
the step says of any sets that agree with the answers. -/
structure Implements (R : RuleSystem Q) (body : Q → Walk ε Q Bool) : Prop where
  asks : ∀ {q r}, (body q).MayAsk r → R.pos q r ∨ R.neg q r
  computes : ∀ {q b} {ans : Q → Except (Halt ε) Bool} {X N : Set Q},
    (body q).eval ans = .ok b → (∀ r c, R.pos q r → ans r = .ok c → (c = true ↔ r ∈ X)) →
    (∀ r c, R.neg q r → ans r = .ok c → (c = true ↔ r ∈ N)) → (b = true ↔ q ∈ R.step X N)

section Search

variable {R : RuleSystem Q} {body : Q → Walk ε Q Bool} {site : Q → K}
  {pol : Q → Bool}

/-- The site of a question fixes its level, and with its polarity the question; positive premises
keep the polarity. -/
structure Sited (L : R.Stratification) (site : Q → K) (pol : Q → Bool) : Prop where
  level_eq : ∀ {q r}, site q = site r → L.level q = L.level r
  eq_of : ∀ {q r}, site q = site r → pol q = pol r → q = r
  pos_pol : ∀ {q r}, R.pos q r → pol r = pol q

/-- The path above `q` stays at the levels of `q` and above, and at the level of `q` it has the
polarity of `q`. -/
def Descends (L : R.Stratification) (pol : Q → Bool) (P : List Q) (q : Q) : Prop :=
  ∀ p ∈ P, L.level q ≤ L.level p ∧ (L.level q = L.level p → pol q = pol p)

variable {L : R.Stratification}

theorem Descends.mem_of_cut (hS : Sited L site pol) {P : List Q} {q : Q}
    (hP : Descends L pol P q) (hq : site q ∈ P.map site) : q ∈ P := by
  obtain ⟨p, hp, hpq⟩ := List.mem_map.mp hq
  have hpol := (hP p hp).2 (hS.level_eq hpq.symm)
  rwa [hS.eq_of hpq.symm hpol]

theorem Descends.pos (hS : Sited L site pol) {P : List Q} {q r : Q} (hP : Descends L pol P q)
    (hr : R.pos q r) : Descends L pol (q :: P) r := by
  have hle := L.pos_le hr
  intro p hp
  rcases List.mem_cons.mp hp with rfl | hp
  · exact ⟨hle, fun _ => hS.pos_pol hr⟩
  · refine ⟨hle.trans (hP p hp).1, fun heq => ?_⟩
    rw [hS.pos_pol hr]
    exact (hP p hp).2 (le_antisymm (hP p hp).1 (by omega))

theorem Descends.lt_of_neg {P : List Q} {q r : Q} (hP : Descends L pol P q) (hr : R.neg q r) :
    ∀ p ∈ q :: P, L.level r < L.level p := by
  intro p hp
  rcases List.mem_cons.mp hp with rfl | hp
  · exact L.neg_lt hr
  · exact lt_of_lt_of_le (L.neg_lt hr) (hP p hp).1

theorem Descends.neg {P : List Q} {q r : Q} (hP : Descends L pol P q) (hr : R.neg q r) :
    Descends L pol (q :: P) r :=
  fun p hp => ⟨(hP.lt_of_neg hr p hp).le, fun h => absurd h (hP.lt_of_neg hr p hp).ne⟩

variable [DecidableEq K]

/-- Below a path that descends, the search decides the rules with the path held false. -/
theorem search_iff_masked (hR : Implements R body) (hS : Sited L site pol) {f : ℕ} {P : List Q}
    {q : Q} {b : Bool} (hP : Descends L pol P q) (hb : search site body f P q = .ok b) :
    b = true ↔ q ∈ R.masked (R.leastModel L) {p | p ∈ P} := by
  induction f generalizing P q b with
  | zero => cases hb
  | succ f ih =>
    by_cases hs : site q ∈ P.map site
    · have hq : q ∈ P := hP.mem_of_cut hS hs
      obtain rfl : b = false := by simpa [search_cut hs] using hb.symm
      exact ⟨fun h => absurd h Bool.false_ne_true, fun h => absurd hq (RuleSystem.mem_masked.mp h).2⟩
    · have hq : q ∉ {p | p ∈ P} := fun h => hs (List.mem_map_of_mem h)
      rw [search_open hs] at hb
      rw [RuleSystem.mem_masked_insert hq]
      have hset : insert q {p | p ∈ P} = {p | p ∈ q :: P} := by
        ext p
        simp
      rw [hset]
      refine hR.computes hb (fun r c hr hc => ih (hP.pos hS hr) hc) fun r c hr hc => ?_
      rw [ih (hP.neg hr) hc]
      exact RuleSystem.mem_masked_of_level_lt L fun p hp => hP.lt_of_neg hr p hp

/-- **The search decides the least model.** -/
theorem search_iff_leastModel (hR : Implements R body) (hS : Sited L site pol) {q : Q} {b : Bool}
    (hb : Decides site body [] q b) : b = true ↔ q ∈ R.leastModel L := by
  obtain ⟨f, hf⟩ := hb
  rw [search_iff_masked hR hS (by simp [Descends]) hf]
  exact RuleSystem.mem_masked_of_level_lt L (by simp)

/-- **In a stratified system every cut is proper.** -/
theorem properCuts_of_stratified (hR : Implements R body) (hS : Sited L site pol) (root : Q) :
    ProperCuts site body root := by
  have hdesc : ∀ P q, Visit site body root P q → Descends L pol P q := by
    intro P q hv
    induction hv with
    | root => simp [Descends]
    | step _ _ hq ih =>
      rcases hR.asks hq.mayAsk with h | h
      · exact ih.pos hS h
      · exact ih.neg h
  exact fun P q hv hs => (hdesc P q hv).mem_of_cut hS hs

end Search

/-! ## Levels of a graph without a cycle through a negated edge -/

section Depth

variable {edge : K → K → Prop}

open scoped Classical in
/-- The number of sources of negated edges, among `U`, that `k` reaches. -/
noncomputable def negationDepth (edge : K → K → Prop) (U : Finset K) (k : K) : ℕ :=
  {s ∈ U | ReflTransGen edge k s}.card

theorem negationDepth_le (U : Finset K) {k k' : K} (h : edge k k') :
    negationDepth edge U k' ≤ negationDepth edge U k := by
  classical
  refine Finset.card_le_card fun s hs => ?_
  rw [Finset.mem_filter] at hs ⊢
  exact ⟨hs.1, .head h hs.2⟩

/-- A negated edge that lies on no cycle lowers the depth. -/
theorem negationDepth_lt {U : Finset K} {k k' : K} (hk : k ∈ U) (h : edge k k')
    (hcyc : ¬ ReflTransGen edge k' k) : negationDepth edge U k' < negationDepth edge U k := by
  classical
  refine Finset.card_lt_card ⟨fun s hs => ?_, fun hsub => hcyc ?_⟩
  · rw [Finset.mem_filter] at hs ⊢
    exact ⟨hs.1, .head h hs.2⟩
  · exact (Finset.mem_filter.mp (hsub (Finset.mem_filter.mpr ⟨hk, .refl⟩))).2

end Depth

end Resolution
