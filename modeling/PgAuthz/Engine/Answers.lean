import PgAuthz.Engine.Semantics

/-!
# The evaluators over their answers

Each evaluator function is read over the answers it gets: whatever it returns is what the rules say
over any set of questions that agrees with the answers.

## Main results

* `evalRule_iff`: one rule
* `evalGroups_iff`, `evalGroups_init_iff`: the loop over the rules of a relation
* `checkAccessImpl_true`: a question answered true has a rule that holds over its true answers
* `groupHolds_iff`: a group over sets of questions, as the loop reads it
-/

namespace PgAuthz

open Resolution

variable {env : CheckEnv} {R : Question → Bool → Prop} {b : Bool}

/-! ## One rule -/

theorem passes_of_unconditional {a : Bool} {t : Tuple} (ht : t.conditionId = none) :
    Passes env a t := by
  simp [Passes, evalCondition, ht]

theorem lift_evalCondition_iff {a c : Bool} {t : Tuple}
    (hc : (Walk.lift (evalCondition env.toConditionEnv a t.conditionId t.conditionContext) :
      Eval Bool).Returns R c) : c = true ↔ Passes env a t := by
  rw [Passes, Walk.returns_lift hc]
  simp

theorem probe_iff {a : Bool} {row : Tuple → Bool} (hb : (probe env a row).Returns R b) :
    b = true ↔ ∃ t ∈ env.tuples, row t = true ∧ Passes env a t := by
  unfold probe at hb
  split at hb
  · rename_i hany
    obtain rfl := Walk.returns_done hb
    obtain ⟨t, ht, hrow⟩ := List.any_eq_true.mp hany
    rw [Bool.and_eq_true, Option.isNone_iff_eq_none] at hrow
    simpa using ⟨t, ht, hrow.1, passes_of_unconditional hrow.2⟩
  · rename_i hany
    rw [Walk.returns_any_iff (fun t _ hc => lift_evalCondition_iff hc) hb]
    constructor
    · rintro ⟨t, ht, hp⟩
      rw [List.mem_filter, Bool.and_eq_true] at ht
      exact ⟨t, ht.1, ht.2.1, hp⟩
    · rintro ⟨t, ht, hrow, hp⟩
      refine ⟨t, List.mem_filter.mpr ⟨ht, ?_⟩, hp⟩
      -- an unconditional row would have been found by the first probe
      cases hc : t.conditionId with
      | none => exact absurd (List.any_eq_true.mpr ⟨t, ht, by simp [hrow, hc]⟩) hany
      | some c => simp [hrow]

theorem probeUnless_iff {skip a : Bool} {row : Tuple → Bool}
    (hb : (probeUnless skip env a row).Returns R b) :
    b = true ↔ skip = false ∧ ∃ t ∈ env.tuples, row t = true ∧ Passes env a t := by
  unfold probeUnless at hb
  cases skip with
  | true =>
    obtain rfl := Walk.returns_done hb
    simp
  | false => simpa using probe_iff (by simpa using hb)

/-- The answers `b` agree with the questions `X` on the nodes that satisfy `C`, under the switch
`a`. -/
def Agrees (R : Question → Bool → Prop) (X : Set Question) (a b : Bool) (C : Node → Prop) : Prop :=
  ∀ n, C n → R ⟨n, a⟩ b → (b = true ↔ ⟨n, a⟩ ∈ X)

variable {X : Set Question}

theorem followRows_iff {a : Bool} {rows : List Tuple} {target : Tuple → Option Node}
    (hX : Agrees R X a b fun n => ∃ t ∈ rows, target t = some n)
    (hb : (followRows env a rows target).Returns R b) :
    b = true ↔ ∃ n, (∃ t ∈ rows, target t = some n ∧ Passes env a t) ∧ ⟨n, a⟩ ∈ X := by
  have hrow := Walk.returns_any_iff
    (P := fun t => ∃ n, target t = some n ∧ Passes env a t ∧ ⟨n, a⟩ ∈ X) ?_ hb
  · rw [hrow]
    constructor
    · rintro ⟨t, ht, n, hn, hp, hmem⟩
      exact ⟨n, ⟨t, ht, hn, hp⟩, hmem⟩
    · rintro ⟨n, ⟨t, ht, hn, hp⟩, hmem⟩
      exact ⟨t, ht, n, hn, hp, hmem⟩
  · intro t ht hc
    cases hn : target t with
    | none =>
      simp only [hn] at hc
      obtain rfl := Walk.returns_done hc
      simp
    | some n =>
      simp only [hn] at hc
      obtain ⟨p, hp, hc⟩ := Walk.returns_bind hc
      have hpass := lift_evalCondition_iff hp
      cases p with
      | false =>
        obtain rfl := Walk.returns_done hc
        simpa using fun h => absurd (hpass.mpr h) Bool.false_ne_true
      | true =>
        have hmem := hX n ⟨t, ht, hn⟩ (Walk.returns_query hc)
        simp [hmem, hpass.mp rfl]

theorem followCtxRows_iff {a : Bool} {target : CtxTuple → Option Node}
    (hX : Agrees R X a b fun n =>
      env.hasCtxTuples = true ∧ ∃ t ∈ env.ctxTuples, target t = some n)
    (hb : (followCtxRows env a target).Returns R b) :
    b = true ↔ ∃ n, (env.hasCtxTuples = true ∧ ∃ t ∈ env.ctxTuples, target t = some n) ∧
      ⟨n, a⟩ ∈ X := by
  unfold followCtxRows at hb
  split at hb
  · rename_i hctx
    have hrow := Walk.returns_any_iff
      (P := fun t => ∃ n, target t = some n ∧ ⟨n, a⟩ ∈ X) ?_ hb
    · rw [hrow]
      constructor
      · rintro ⟨t, ht, n, hn, hmem⟩
        exact ⟨n, ⟨hctx, t, ht, hn⟩, hmem⟩
      · rintro ⟨n, ⟨-, t, ht, hn⟩, hmem⟩
        exact ⟨t, ht, n, hn, hmem⟩
    · intro t ht hc
      cases hn : target t with
      | none =>
        simp only [hn] at hc
        obtain rfl := Walk.returns_done hc
        simp
      | some n =>
        simp only [hn] at hc
        simp [hX n ⟨hctx, t, ht, hn⟩ (Walk.returns_query hc)]
  · rename_i hctx
    obtain rfl := Walk.returns_done hb
    simp [hctx]

theorem directRow_iff {n : Node} {o : String} {ids : List String} {t : Tuple} :
    directRow env n o ids t = true ↔ t.objectType = n.objectType ∧ t.objectId = o ∧
      t.relation = n.relation ∧ t.userType = env.userType ∧ t.userId ∈ ids ∧
      t.userRelation = none := by
  simp [directRow]

/-- On the rows of the first probe, skipping the probe is leaving out its row. -/
theorem skipDirect_iff {n : Node} {t : Tuple}
    (ht : directRow env n n.objectId [env.userId] t = true) :
    skipDirect env n = true ↔ LeftOut env t := by
  obtain ⟨hT, ho, hr, hut, hu, -⟩ := directRow_iff.mp ht
  rw [List.mem_singleton] at hu
  unfold skipDirect LeftOut
  cases env.exclude with
  | none => simp
  | some k =>
    rw [decide_eq_true_eq, Option.some.injEq, hT, ho, hr, hut, hu]
    constructor
    · rintro ⟨h1, h2, h3, h4, h5⟩
      rw [h1, h2, h3, h4, h5]
    · rintro rfl
      exact ⟨rfl, rfl, rfl, rfl, rfl⟩

/-- On the rows of the second probe, skipping the probe is leaving out its row. -/
theorem skipWildcard_iff {n : Node} {t : Tuple}
    (ht : directRow env n n.objectId [wildcard] t = true) :
    skipWildcard env n = true ↔ LeftOut env t := by
  obtain ⟨hT, ho, hr, hut, hu, -⟩ := directRow_iff.mp ht
  rw [List.mem_singleton] at hu
  unfold skipWildcard LeftOut
  cases env.exclude with
  | none => simp
  | some k =>
    rw [decide_eq_true_eq, Option.some.injEq, hT, ho, hr, hut, hu]
    constructor
    · rintro ⟨h1, h2, h3, h4, h5⟩
      rw [h1, h2, h3, h4, ← h5]
    · rintro rfl
      exact ⟨rfl, rfl, rfl, rfl, rfl⟩

/-- The three probes of a direct rule find the stored grants. -/
theorem storedGrant_iff {a : Bool} {n : Node} :
    StoredGrant env a n ↔
      (skipDirect env n = false ∧
        ∃ t ∈ env.tuples, directRow env n n.objectId [env.userId] t = true ∧ Passes env a t) ∨
      (skipWildcard env n = false ∧
        ∃ t ∈ env.tuples, directRow env n n.objectId [wildcard] t = true ∧ Passes env a t) ∨
      ∃ t ∈ env.tuples, directRow env n wildcard [env.userId, wildcard] t = true ∧
        Passes env a t := by
  constructor
  · rintro ⟨t, ht, hr, hT, ho, hut, hu, hur, hp⟩
    rcases ho with ⟨ho, hout⟩ | ho
    · rcases hu with hu | hu
      · have hrow : directRow env n n.objectId [env.userId] t = true := by
          exact directRow_iff.mpr ⟨hT, ho, hr, hut, by simp [hu], hur⟩
        exact .inl ⟨by simpa using (skipDirect_iff hrow).not.mpr hout, t, ht, hrow, hp⟩
      · have hrow : directRow env n n.objectId [wildcard] t = true := by
          exact directRow_iff.mpr ⟨hT, ho, hr, hut, by simp [hu], hur⟩
        exact .inr (.inl ⟨by simpa using (skipWildcard_iff hrow).not.mpr hout, t, ht, hrow, hp⟩)
    · exact .inr (.inr ⟨t, ht, directRow_iff.mpr ⟨hT, ho, hr, hut, by simpa using hu, hur⟩, hp⟩)
  · rintro (⟨hskip, t, ht, hrow, hp⟩ | ⟨hskip, t, ht, hrow, hp⟩ | ⟨t, ht, hrow, hp⟩)
    · have hout : ¬ LeftOut env t := fun h => by simp [(skipDirect_iff hrow).mpr h] at hskip
      obtain ⟨hT, ho, hr, hut, hu, hur⟩ := directRow_iff.mp hrow
      exact ⟨t, ht, hr, hT, .inl ⟨ho, hout⟩, hut, .inl (by simpa using hu), hur, hp⟩
    · have hout : ¬ LeftOut env t := fun h => by simp [(skipWildcard_iff hrow).mpr h] at hskip
      obtain ⟨hT, ho, hr, hut, hu, hur⟩ := directRow_iff.mp hrow
      exact ⟨t, ht, hr, hT, .inl ⟨ho, hout⟩, hut, .inr (by simpa using hu), hur, hp⟩
    · obtain ⟨hT, ho, hr, hut, hu, hur⟩ := directRow_iff.mp hrow
      exact ⟨t, ht, hr, hT, .inr ho, hut, by simpa using hu, hur, hp⟩

theorem contextualGrant_iff {n : Node} :
    (env.hasCtxTuples && checkCtxDirect env n) = true ↔ ContextualGrant env n := by
  simp only [checkCtxDirect, ContextualGrant, Bool.and_eq_true, List.any_eq_true,
    decide_eq_true_eq, List.mem_cons, List.not_mem_nil, or_false]
  refine and_congr_right fun _ => exists_congr fun t => and_congr_right fun _ => ?_
  constructor
  · rintro ⟨hT, ho, hr, hut, hu, hur⟩
    exact ⟨hr, hT, ho, hut, hu, hur⟩
  · rintro ⟨hr, hT, ho, hut, hu, hur⟩
    exact ⟨hT, ho, hr, hut, hu, hur⟩

/-- The three loops of a direct rule find the usersets that hold. -/
theorem usersetHolds_iff {a : Bool} {n : Node} :
    (∃ n', Userset env a n n' ∧ ⟨n', a⟩ ∈ X) ↔
      (∃ n', (∃ t ∈ env.tuples.filter fun t => t.conditionId.isNone,
        usersetNode n t = some n' ∧ Passes env a t) ∧ ⟨n', a⟩ ∈ X) ∨
      (∃ n', (∃ t ∈ env.tuples.filter fun t => t.conditionId.isSome,
        usersetNode n t = some n' ∧ Passes env a t) ∧ ⟨n', a⟩ ∈ X) ∨
      ∃ n', (env.hasCtxTuples = true ∧ ∃ t ∈ env.ctxTuples, ctxUsersetNode n t = some n') ∧
        ⟨n', a⟩ ∈ X := by
  constructor
  · rintro ⟨n', ⟨t, ht, hn, hp⟩ | hctx, hX⟩
    · cases hc : t.conditionId with
      | none => exact .inl ⟨n', ⟨t, List.mem_filter.mpr ⟨ht, by simp [hc]⟩, hn, hp⟩, hX⟩
      | some c =>
        exact .inr (.inl ⟨n', ⟨t, List.mem_filter.mpr ⟨ht, by simp [hc]⟩, hn, hp⟩, hX⟩)
    · exact .inr (.inr ⟨n', hctx, hX⟩)
  · rintro (⟨n', ⟨t, ht, hn, hp⟩, hX⟩ | ⟨n', ⟨t, ht, hn, hp⟩, hX⟩ | ⟨n', hctx, hX⟩)
    · exact ⟨n', .inl ⟨t, List.mem_of_mem_filter ht, hn, hp⟩, hX⟩
    · exact ⟨n', .inl ⟨t, List.mem_of_mem_filter ht, hn, hp⟩, hX⟩
    · exact ⟨n', .inr hctx, hX⟩

theorem evalDirect_iff {q : Question}
    (hX : Agrees R X q.assume b fun n' => Premise env q.node n' .direct)
    (hb : (evalDirect env q).Returns R b) : b = true ↔ DirectHolds env X q := by
  have hrows : ∀ p : Tuple → Bool, Agrees R X q.assume b fun n' =>
      ∃ t ∈ env.tuples.filter p, usersetNode q.node t = some n' := by
    rintro p n' ⟨t, ht, hn⟩
    exact hX n' (.inl ⟨t, List.mem_of_mem_filter ht, hn⟩)
  have hctx : (return env.hasCtxTuples && checkCtxDirect env q.node : Eval Bool).Returns R b →
      (b = true ↔ ContextualGrant env q.node) := by
    intro hc
    rw [Walk.returns_done hc]
    exact contextualGrant_iff
  have hall := Walk.returns_orElse_iff probeUnless_iff
    (Walk.returns_orElse_iff probeUnless_iff (Walk.returns_orElse_iff probe_iff
      (Walk.returns_orElse_iff hctx (Walk.returns_orElse_iff (followRows_iff (hrows _))
        (Walk.returns_orElse_iff (followRows_iff (hrows _))
          (followCtxRows_iff fun n' hn => hX n' (.inr hn))))))) hb
  rw [hall, DirectHolds, storedGrant_iff, usersetHolds_iff, or_assoc, or_assoc]

theorem evalTtu_iff {q : Question} {ts c : ℕ}
    (hX : Agrees R X q.assume b fun n' => Premise env q.node n' (.ttu ts c))
    (hb : (evalTtu env q ts c).Returns R b) :
    b = true ↔ ∃ n', Linked env q.assume q.node ts c n' ∧ ⟨n', q.assume⟩ ∈ X := by
  have hall := Walk.returns_orElse_iff (followRows_iff fun n' hn => hX n' (.inl hn))
    (followCtxRows_iff fun n' hn => hX n' (.inr hn)) hb
  rw [hall, ← exists_or]
  exact exists_congr fun n' => or_and_right.symm

/-- **What a rule returns is what it says** of the questions that agree with the answers on the
side of the result: a true result needs only its true answers to be right, a false one only its
false answers. -/
theorem evalRule_iff {q : Question} {body : RuleBody}
    (hX : Agrees R X q.assume b fun n' => Premise env q.node n' body)
    (hb : (evalRule env q body).Returns R b) : b = true ↔ RuleHolds env X q body := by
  cases body with
  | direct => exact evalDirect_iff hX hb
  | computed r => exact hX _ rfl (Walk.returns_query hb)
  | ttu ts c => exact evalTtu_iff hX hb

/-! ## The groups of a relation -/

section Groups

variable {eval : Question → RuleBody → Eval Bool} (val safe : Rule → Prop)

/-- What is left of the current group passes, where `val` says which rules hold and `safe` which
negated rules do not. -/
def GroupState.Passes (st : GroupState) (rs : List Rule) : Prop :=
  st.groupPass = some true ∧
    match st.curGroupOp with
    | none => False
    | some .or => ∃ ρ ∈ rs, val ρ
    | some .and => 0 ≤ st.curGroup ∧ ∀ ρ ∈ rs, val ρ
    | some .exclusion => 0 ≤ st.curGroup ∧ ∀ ρ ∈ rs, if ρ.negated = true then safe ρ else val ρ

/-- A group passes from its first rule on. -/
def NewGroupPasses (rs : List Rule) : Prop :=
  ∃ first, rs.head? = some first ∧ (GroupState.start first).Passes val safe rs

variable {val safe}

theorem GroupState.passes_nil (st : GroupState) :
    st.Passes val safe [] ↔ st.finalizes = true := by
  rcases st with ⟨g, op, p⟩
  cases op with
  | none => simp [GroupState.Passes, GroupState.finalizes]
  | some op => cases op <;> simp [GroupState.Passes, GroupState.finalizes, and_comm]

theorem GroupState.not_passes_fail (st : GroupState) (rs : List Rule) :
    ¬ st.fail.Passes val safe rs := by
  simp [GroupState.Passes, GroupState.fail]

/-- A new group is evaluated from its start. -/
theorem evalGroups_boundary {q : Question} {st : GroupState} {ρ : Rule} {l : List Rule}
    (hne : ρ.groupId ≠ st.curGroup) (hfin : st.finalizes = false) :
    evalGroups eval q st (ρ :: l) = evalGroups eval q (.start ρ) (ρ :: l) := by
  have hcur : (GroupState.start ρ).curGroup = ρ.groupId := rfl
  rw [evalGroups, evalGroups]
  simp [hne, hfin, hcur]

/-- A rule that keeps the group when it returns true and fails it otherwise, when the rest of the
loop decides the rest of the group or `L`. -/
theorem evalGroups_keep {q : Question} {st : GroupState} {l rs : List Rule} {L holds : Prop}
    {pass : Bool}
    (ih : ∀ st', st' = st ∨ st' = st.fail → (evalGroups eval q st' l).Returns R b →
      (b = true ↔ st'.Passes val safe rs ∨ L))
    (hp : pass = b → (b = true ↔ holds))
    (hb : (evalGroups eval q (if pass = true then st else st.fail) l).Returns R b) :
    b = true ↔ (holds ∧ st.Passes val safe rs) ∨ L := by
  cases pass with
  | true =>
    have hrest := ih st (.inl rfl) hb
    cases b with
    | true => simpa [(hp rfl).mp rfl] using hrest
    | false =>
      have hnot : ¬ st.Passes val safe rs ∧ ¬ L := by simpa using hrest
      simp [hnot.1, hnot.2]
  | false =>
    have hrest := ih st.fail (.inr rfl) hb
    rw [or_iff_right (st.not_passes_fail rs)] at hrest
    cases b with
    | true => simp [hrest.mp rfl]
    | false =>
      have hnot : ¬ holds := fun h => Bool.false_ne_true ((hp rfl).mpr h)
      simpa [hnot] using hrest

/-- One rule of the current group, when the rest of the loop decides the rest of the group or
`L`. -/
theorem evalGroups_step {q : Question} {st : GroupState} {ρ : Rule} {l rs : List Rule} {L : Prop}
    (hρ : ρ.groupId = st.curGroup)
    (hval : (eval q ρ.body).Returns R b → (b = true ↔ val ρ))
    (hsafe : ρ.negated = true → (eval q.flip ρ.body).Returns R (!b) → (b = true ↔ safe ρ))
    (hpass : st.curGroupOp ≠ none → st.groupPass ≠ none)
    (ih : ∀ st', st' = st ∨ st' = st.fail → (evalGroups eval q st' l).Returns R b →
      (b = true ↔ st'.Passes val safe rs ∨ L))
    (hb : (evalGroups eval q st (ρ :: l)).Returns R b) :
    b = true ↔ st.Passes val safe (ρ :: rs) ∨ L := by
  rw [evalGroups] at hb
  simp only [hρ, ne_eq, not_true_eq_false, false_and, if_false] at hb
  -- a failed group skips its remaining rules
  by_cases hfail : st.groupPass = some false
  · rw [if_pos hfail] at hb
    rw [ih st (.inl rfl) hb]
    simp [GroupState.Passes, hfail]
  · rw [if_neg hfail] at hb
    cases hop : st.curGroupOp with
    | none =>
      simp only [hop] at hb
      cases hb
    | some op =>
      have htrue : st.groupPass = some true := by
        cases hp : st.groupPass with
        | none => exact absurd hp (hpass (by simp [hop]))
        | some p =>
          cases p with
          | true => rfl
          | false => exact absurd hp hfail
      cases op with
      | or =>
        simp only [hop] at hb
        rw [Walk.returns_orElse_iff hval (ih st (.inl rfl)) hb]
        simp [GroupState.Passes, htrue, hop, or_assoc]
      | and =>
        simp only [hop] at hb
        obtain ⟨c, hc, hb⟩ := Walk.returns_bind hb
        rw [evalGroups_keep ih (fun h => hval (h ▸ hc)) hb]
        simp [GroupState.Passes, htrue, hop, and_left_comm]
      | exclusion =>
        simp only [hop] at hb
        cases hneg : ρ.negated with
        | false =>
          simp only [hneg, Bool.false_eq_true, if_false] at hb
          obtain ⟨c, hc, hb⟩ := Walk.returns_bind hb
          rw [evalGroups_keep ih (fun h => hval (h ▸ hc)) hb]
          simp [GroupState.Passes, htrue, hop, hneg, and_left_comm]
        | true =>
          simp only [hneg, if_true] at hb
          obtain ⟨c, hc, hb⟩ := Walk.returns_bind hb
          -- a hit fails the group
          have hkeep : (if (!c) = true then st else st.fail) = if c = true then st.fail else st := by
            cases c <;> rfl
          rw [← hkeep] at hb
          rw [evalGroups_keep ih (fun h => hsafe hneg (by rw [← h, Bool.not_not]; exact hc)) hb]
          simp [GroupState.Passes, htrue, hop, hneg, and_left_comm]

/-- Rules sorted by their group have no rule of an earlier group. -/
theorem filter_group_eq_nil {ρ : Rule} {l : List Rule} (hl : ∀ r ∈ l, ρ.groupId ≤ r.groupId)
    {g : ℤ} (hg : g < ρ.groupId) : ((ρ :: l).filter fun r => r.groupId = g) = [] := by
  refine List.filter_eq_nil_iff.mpr fun r hr => ?_
  have hle : ρ.groupId ≤ r.groupId := by
    rcases List.mem_cons.mp hr with rfl | hr
    · exact le_rfl
    · exact hl r hr
  simp only [decide_eq_true_eq]
  omega

/-- A group that passes has a rule, so it is not an earlier one. -/
theorem groupId_le_of_passes {ρ : Rule} {l : List Rule} (hl : ∀ r ∈ l, ρ.groupId ≤ r.groupId)
    {g : ℤ} (hp : NewGroupPasses val safe ((ρ :: l).filter fun r => r.groupId = g)) :
    ρ.groupId ≤ g := by
  by_contra hlt
  obtain ⟨first, hfirst, -⟩ := hp
  simp [filter_group_eq_nil hl (not_le.mp hlt)] at hfirst

/-- From the start of a group, this group or a later one passes. -/
theorem passes_start_iff {ρ : Rule} {l : List Rule} :
    ((GroupState.start ρ).Passes val safe
        ((ρ :: l).filter fun r => r.groupId = (GroupState.start ρ).curGroup) ∨
      ∃ g, (GroupState.start ρ).curGroup < g ∧
        NewGroupPasses val safe ((ρ :: l).filter fun r => r.groupId = g)) ↔
      ∃ g, ρ.groupId ≤ g ∧ NewGroupPasses val safe ((ρ :: l).filter fun r => r.groupId = g) := by
  have hcur : (GroupState.start ρ).curGroup = ρ.groupId := rfl
  have hnew : (GroupState.start ρ).Passes val safe
      ((ρ :: l).filter fun r => r.groupId = ρ.groupId) ↔
      NewGroupPasses val safe ((ρ :: l).filter fun r => r.groupId = ρ.groupId) := by
    simp [NewGroupPasses]
  rw [hcur, hnew]
  constructor
  · rintro (hp | ⟨g, hg, hp⟩)
    · exact ⟨ρ.groupId, le_rfl, hp⟩
    · exact ⟨g, hg.le, hp⟩
  · rintro ⟨g, hg, hp⟩
    rcases hg.lt_or_eq with hlt | rfl
    · exact .inr ⟨g, hlt, hp⟩
    · exact .inl hp

/-- **The loop over the rules** decides whether the rest of the current group or a later group
passes, from the rules that are right on the side of the result. -/
theorem evalGroups_iff (val safe : Rule → Prop) {q : Question} {l : List Rule} {st : GroupState}
    (hval : ∀ ρ ∈ l, (eval q ρ.body).Returns R b → (b = true ↔ val ρ))
    (hsafe : ∀ ρ ∈ l, ρ.negated = true → (eval q.flip ρ.body).Returns R (!b) →
      (b = true ↔ safe ρ))
    (hl : l.Pairwise fun a b => a.groupId ≤ b.groupId) (hst : ∀ ρ ∈ l, st.curGroup ≤ ρ.groupId)
    (hpass : st.curGroupOp ≠ none → st.groupPass ≠ none)
    (hb : (evalGroups eval q st l).Returns R b) :
    b = true ↔ st.Passes val safe (l.filter fun ρ => ρ.groupId = st.curGroup) ∨
      ∃ g, st.curGroup < g ∧ NewGroupPasses val safe (l.filter fun ρ => ρ.groupId = g) := by
  induction l generalizing st with
  | nil =>
    obtain rfl := Walk.returns_done hb
    simp [GroupState.passes_nil, NewGroupPasses]
  | cons ρ l ih =>
    obtain ⟨hρl, hl⟩ := List.pairwise_cons.mp hl
    -- within the group of the first rule
    have hsame : ∀ st : GroupState, ρ.groupId = st.curGroup →
        (st.curGroupOp ≠ none → st.groupPass ≠ none) →
        (evalGroups eval q st (ρ :: l)).Returns R b →
        (b = true ↔ st.Passes val safe ((ρ :: l).filter fun ρ => ρ.groupId = st.curGroup) ∨
          ∃ g, st.curGroup < g ∧
            NewGroupPasses val safe ((ρ :: l).filter fun ρ => ρ.groupId = g)) := by
      intro st hρ hpass hb
      have hfilter : ∀ g, st.curGroup < g →
          ((ρ :: l).filter fun ρ => ρ.groupId = g) = l.filter fun ρ => ρ.groupId = g := by
        intro g hg
        rw [List.filter_cons_of_neg]
        simp only [decide_eq_true_eq]
        omega
      have hlater : (∃ g, st.curGroup < g ∧
          NewGroupPasses val safe ((ρ :: l).filter fun ρ => ρ.groupId = g)) ↔
          ∃ g, st.curGroup < g ∧ NewGroupPasses val safe (l.filter fun ρ => ρ.groupId = g) :=
        exists_congr fun g => and_congr_right fun hg => by rw [hfilter g hg]
      rw [hlater, List.filter_cons_of_pos (by simpa using hρ)]
      refine evalGroups_step hρ (hval ρ (by simp)) (hsafe ρ (by simp)) hpass ?_ hb
      rintro st' hst' hc
      have hcur : st'.curGroup = st.curGroup := by
        rcases hst' with rfl | rfl <;> rfl
      have hpass' : st'.curGroupOp ≠ none → st'.groupPass ≠ none := by
        rcases hst' with rfl | rfl
        · exact hpass
        · simp [GroupState.fail]
      rw [← hcur]
      exact ih (fun r hr => hval r (by simp [hr])) (fun r hr => hsafe r (by simp [hr])) hl
        (fun r hr => by rw [hcur, ← hρ]; exact hρl r hr) hpass' hc
    by_cases hρ : ρ.groupId = st.curGroup
    · exact hsame st hρ hpass hb
    · have hlt : st.curGroup < ρ.groupId := lt_of_le_of_ne (hst ρ (by simp)) (Ne.symm hρ)
      -- nothing is left of the current group
      rw [filter_group_eq_nil hρl hlt, GroupState.passes_nil]
      cases hfin : st.finalizes with
      | true =>
        rw [evalGroups, if_pos ⟨hρ, hfin⟩] at hb
        obtain rfl := Walk.returns_done hb
        simp
      | false =>
        rw [evalGroups_boundary hρ hfin] at hb
        rw [hsame (.start ρ) rfl (by simp [GroupState.start]) hb, passes_start_iff]
        constructor
        · rintro ⟨g, hg, hp⟩
          exact .inr ⟨g, hlt.trans_le hg, hp⟩
        · rintro (hp | ⟨g, -, hp⟩)
          · exact absurd hp Bool.false_ne_true
          · exact ⟨g, groupId_le_of_passes hρl hp, hp⟩

/-- **The loop from its start** decides whether some group passes. A first group with the id of the
initial state raises. -/
theorem evalGroups_init_iff (val safe : Rule → Prop) {q : Question} {l : List Rule}
    (hval : ∀ ρ ∈ l, (eval q ρ.body).Returns R b → (b = true ↔ val ρ))
    (hsafe : ∀ ρ ∈ l, ρ.negated = true → (eval q.flip ρ.body).Returns R (!b) →
      (b = true ↔ safe ρ))
    (hl : l.Pairwise fun a b => a.groupId ≤ b.groupId)
    (hb : (evalGroups eval q .init l).Returns R b) :
    b = true ↔ ∃ g, NewGroupPasses val safe (l.filter fun ρ => ρ.groupId = g) := by
  cases l with
  | nil =>
    obtain rfl := Walk.returns_done hb
    simp [GroupState.finalizes, GroupState.init, NewGroupPasses]
  | cons ρ l =>
    have hρl := (List.pairwise_cons.mp hl).1
    by_cases hρ : ρ.groupId = GroupState.init.curGroup
    · rw [evalGroups] at hb
      simp only [hρ, ne_eq, not_true_eq_false, false_and, if_false] at hb
      cases hb
    · rw [evalGroups_boundary hρ rfl] at hb
      have hst : ∀ r ∈ ρ :: l, (GroupState.start ρ).curGroup ≤ r.groupId := by
        intro r hr
        rcases List.mem_cons.mp hr with rfl | hr
        · exact le_rfl
        · exact hρl r hr
      rw [evalGroups_iff val safe hval hsafe hl hst (by simp [GroupState.start]) hb,
        passes_start_iff]
      constructor
      · rintro ⟨g, -, hp⟩
        exact ⟨g, hp⟩
      · rintro ⟨g, hp⟩
        exact ⟨g, groupId_le_of_passes hρl hp, hp⟩

/-- **A loop that returns true has a rule that returned true**, or its current group was passing
already. -/
theorem evalGroups_true {q : Question} {l : List Rule} {st : GroupState}
    (hb : (evalGroups eval q st l).Returns R true) :
    (∃ ρ ∈ l, (eval q ρ.body).Returns R true) ∨
      (st.groupPass = some true ∧ st.curGroupOp ≠ some .or) := by
  have hfin : ∀ st : GroupState, st.finalizes = true →
      st.groupPass = some true ∧ st.curGroupOp ≠ some .or := by
    intro st h
    simp only [GroupState.finalizes, Bool.and_eq_true, Bool.or_eq_true, beq_iff_eq] at h
    refine ⟨h.1.2, ?_⟩
    rcases h.2 with h | h <;> simp [h]
  induction l generalizing st with
  | nil => exact .inr (hfin st (Walk.returns_done hb).symm)
  | cons ρ l ih =>
    have htail : ∀ st' : GroupState, (evalGroups eval q st' l).Returns R true →
        (st'.groupPass = some true → st'.curGroupOp ≠ some .or →
          st.groupPass = some true ∧ st.curGroupOp ≠ some .or) →
        (∃ ρ' ∈ ρ :: l, (eval q ρ'.body).Returns R true) ∨
          (st.groupPass = some true ∧ st.curGroupOp ≠ some .or) := by
      intro st' h hst'
      rcases ih h with ⟨ρ', hρ', h⟩ | ⟨h, h'⟩
      · exact .inl ⟨ρ', List.mem_cons_of_mem ρ hρ', h⟩
      · exact .inr (hst' h h')
    -- a rule that must hold either returned true or failed the group
    have hmust : ∀ (st' : GroupState) (c : Bool), (eval q ρ.body).Returns R c →
        (evalGroups eval q (if c = true then st' else st'.fail) l).Returns R true →
        (∃ ρ' ∈ ρ :: l, (eval q ρ'.body).Returns R true) ∨
          (st.groupPass = some true ∧ st.curGroupOp ≠ some .or) := by
      intro st' c hc h
      cases c with
      | true => exact .inl ⟨ρ, List.mem_cons_self, hc⟩
      | false => exact htail st'.fail h fun h => by simp [GroupState.fail] at h
    rw [evalGroups] at hb
    split at hb
    · rename_i h
      exact .inr (hfin st h.2)
    · dsimp only at hb
      set st' := if ρ.groupId ≠ st.curGroup then GroupState.start ρ else st with hst'
      split at hb
      · rename_i hfail
        exact htail st' hb fun h => by simp [hfail] at h
      · rename_i hnot
        split at hb
        · cases hb
        · rename_i hop
          obtain ⟨c, hc, hb⟩ := Walk.returns_bind hb
          cases c with
          | true => exact .inl ⟨ρ, List.mem_cons_self, hc⟩
          | false => exact htail st' hb fun _ h => absurd hop h
        · obtain ⟨c, hc, hb⟩ := Walk.returns_bind hb
          exact hmust st' c hc hb
        · rename_i hop
          split at hb
          · rename_i hneg
            obtain ⟨c, -, hb⟩ := Walk.returns_bind hb
            refine htail _ hb fun h _ => ?_
            -- the group was not started by this negated rule
            have hsame : st' = st := by
              by_cases hρ : ρ.groupId = st.curGroup
              · simp [hst', hρ]
              · have hstart : st' = .start ρ := by simp [hst', hρ]
                rw [hstart] at hnot hop
                simp only [GroupState.start, Option.some.injEq] at hnot hop
                simp [hop, hneg] at hnot
            rw [hsame] at h hop
            refine ⟨?_, by simp [hop]⟩
            cases c with
            | true => simp [GroupState.fail] at h
            | false => exact h
          · obtain ⟨c, hc, hb⟩ := Walk.returns_bind hb
            exact hmust st' c hc hb

end Groups

/-- **A question answered true is supported**: one of its rules holds over the true answers. -/
theorem checkAccessImpl_true {q : Question} (hb : (checkAccessImpl env q).Returns R true) :
    ∃ ρ ∈ orderedRules env.rules q.node.objectType q.node.relation,
      RuleHolds env {r | R r true} q ρ.body := by
  rcases evalGroups_true hb with ⟨ρ, hρ, hr⟩ | ⟨h, -⟩
  · exact ⟨ρ, hρ, (evalRule_iff (fun n _ hn => by simpa using hn) hr).mp rfl⟩
  · cases h

/-- A group of a non-negative id over sets of questions, as the loop reads it. -/
theorem groupHolds_iff {N : Set Question} {q : Question} {g : ℤ} (hg : 0 ≤ g) :
    GroupHolds env X N q g ↔ NewGroupPasses (fun ρ => RuleHolds env X q ρ.body)
      (fun ρ => ¬ RuleHolds env N q.flip ρ.body) (groupRules env q.node g) := by
  refine exists_congr fun first => and_congr_right fun hfirst => ?_
  have hmem : first ∈ groupRules env q.node g := List.mem_of_mem_head? hfirst
  have hgroup : ∀ ρ ∈ groupRules env q.node g, ρ.groupId = g := fun ρ hρ => by
    simpa using (List.mem_filter.mp hρ).2
  have hcur : 0 ≤ first.groupId := by rwa [hgroup first hmem]
  cases hop : first.groupOp with
  | or => simp [GroupState.Passes, GroupState.start, hop]
  | and => simp [GroupState.Passes, GroupState.start, hop, hcur]
  | exclusion =>
    -- base rules come first, so the group has one exactly when its first rule is one
    have hbase : (∃ ρ ∈ groupRules env q.node g, ρ.negated = false) ↔ first.negated = false := by
      refine ⟨fun ⟨ρ, hρ, hneg⟩ => ?_, fun h => ⟨first, hmem, h⟩⟩
      have hsorted : (groupRules env q.node g).Pairwise Rule.order :=
        (pairwise_orderedRules _ _ _).filter _
      obtain ⟨rest, hrest⟩ : ∃ rest, groupRules env q.node g = first :: rest := by
        cases hl : groupRules env q.node g with
        | nil => simp [hl] at hfirst
        | cons a rest => exact ⟨rest, by simp [hl] at hfirst; rw [hfirst]⟩
      rw [hrest, List.mem_cons] at hρ
      rcases hρ with rfl | hρ
      · exact hneg
      · rw [hrest] at hsorted hgroup
        have horder := (List.pairwise_cons.mp hsorted).1 ρ hρ
        have hgeq : first.groupId = ρ.groupId := by
          rw [hgroup first (by simp), hgroup ρ (by simp [hρ])]
        rcases horder with hlt | ⟨-, hlt | ⟨heq, -⟩⟩
        · exact absurd hlt (by omega)
        · rw [hneg] at hlt
          exact absurd hlt (by simp)
        · rw [heq, hneg]
    simp only [GroupState.Passes, GroupState.start, hop, hbase]
    constructor
    · rintro ⟨hfalse, hall, hneg⟩
      refine ⟨by simp [hfalse], hcur, fun ρ hρ => ?_⟩
      cases hn : ρ.negated with
      | true => simpa using hneg ρ hρ hn
      | false => simpa using hall ρ hρ hn
    · rintro ⟨hpass, -, hall⟩
      refine ⟨by simpa using hpass, fun ρ hρ hneg => ?_, fun ρ hρ hneg => ?_⟩
      · simpa [hneg] using hall ρ hρ
      · simpa [hneg] using hall ρ hρ

end PgAuthz
