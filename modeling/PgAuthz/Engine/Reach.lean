import PgAuthz.Engine.Semantics

/-!
# What a check can reach

The questions the bodies of a check ask, the errors they raise, and the finitely many nodes a check
from a root can visit.

## Main results

* `mayAsk_evalRule`, `mayAsk_evalGroups`: a body asks the premises of its rules
* `raisesOnlyAborts_evalGroups`: with non-negative group ids a body raises only the errors that
  condition evaluation passes on
* `checkNodes_closed`: a check stays within finitely many nodes
-/

namespace PgAuthz

open Resolution

variable {env : CheckEnv}

/-! ## The questions a body asks and the errors it raises -/

theorem not_mayAsk_probe {a : Bool} {row : Tuple → Bool} {r : Question} :
    ¬ (probe env a row).MayAsk r := by
  intro hr
  unfold probe at hr
  split at hr
  · exact absurd hr Walk.not_asked_done
  · obtain ⟨t, -, ht⟩ := Walk.mayAsk_any hr
    exact absurd ht Walk.not_asked_lift

theorem not_mayAsk_probeUnless {skip a : Bool} {row : Tuple → Bool} {r : Question} :
    ¬ (probeUnless skip env a row).MayAsk r := by
  intro hr
  unfold probeUnless at hr
  split at hr
  · exact absurd hr Walk.not_asked_done
  · exact absurd hr not_mayAsk_probe

theorem mayAsk_followRows {a : Bool} {rows : List Tuple} {target : Tuple → Option Node}
    {r : Question} (hr : (followRows env a rows target).MayAsk r) :
    r.assume = a ∧ ∃ t ∈ rows, target t = some r.node := by
  obtain ⟨t, ht, hr⟩ := Walk.mayAsk_any hr
  cases hn : target t with
  | none =>
    simp only [hn] at hr
    exact absurd hr Walk.not_asked_done
  | some n =>
    simp only [hn] at hr
    rcases Walk.mayAsk_bind hr with h | ⟨c, h⟩
    · exact absurd h Walk.not_asked_lift
    · cases c with
      | false => exact absurd h Walk.not_asked_done
      | true =>
        obtain rfl := Walk.mayAsk_query h
        exact ⟨rfl, t, ht, hn⟩

theorem mayAsk_followCtxRows {a : Bool} {target : CtxTuple → Option Node} {r : Question}
    (hr : (followCtxRows env a target).MayAsk r) :
    r.assume = a ∧ env.hasCtxTuples = true ∧ ∃ t ∈ env.ctxTuples, target t = some r.node := by
  unfold followCtxRows at hr
  split at hr
  · rename_i hctx
    obtain ⟨t, ht, hr⟩ := Walk.mayAsk_any hr
    cases hn : target t with
    | none =>
      simp only [hn] at hr
      exact absurd hr Walk.not_asked_done
    | some n =>
      simp only [hn] at hr
      obtain rfl := Walk.mayAsk_query hr
      exact ⟨rfl, hctx, t, ht, hn⟩
  · exact absurd hr Walk.not_asked_done

/-- A rule asks its premises, under the switch of the question. -/
theorem mayAsk_evalRule {q r : Question} {body : RuleBody} (hr : (evalRule env q body).MayAsk r) :
    r.assume = q.assume ∧ Premise env q.node r.node body := by
  cases body with
  | direct =>
    rcases Walk.mayAsk_orElse hr with hr | hr
    · exact absurd hr not_mayAsk_probeUnless
    rcases Walk.mayAsk_orElse hr with hr | hr
    · exact absurd hr not_mayAsk_probeUnless
    rcases Walk.mayAsk_orElse hr with hr | hr
    · exact absurd hr not_mayAsk_probe
    split at hr
    · exact absurd hr Walk.not_asked_done
    rcases Walk.mayAsk_orElse hr with hr | hr
    · obtain ⟨ha, t, ht, hn⟩ := mayAsk_followRows hr
      exact ⟨ha, .inl ⟨t, List.mem_of_mem_filter ht, hn⟩⟩
    rcases Walk.mayAsk_orElse hr with hr | hr
    · obtain ⟨ha, t, ht, hn⟩ := mayAsk_followRows hr
      exact ⟨ha, .inl ⟨t, List.mem_of_mem_filter ht, hn⟩⟩
    · obtain ⟨ha, hctx⟩ := mayAsk_followCtxRows hr
      exact ⟨ha, .inr hctx⟩
  | computed r' =>
    obtain rfl := Walk.mayAsk_query hr
    exact ⟨rfl, rfl⟩
  | ttu ts c =>
    rcases Walk.mayAsk_orElse hr with hr | hr
    · obtain ⟨ha, hn⟩ := mayAsk_followRows hr
      exact ⟨ha, .inl hn⟩
    · obtain ⟨ha, hn⟩ := mayAsk_followCtxRows hr
      exact ⟨ha, .inr hn⟩

/-- The loop asks what its rules ask: under the switch of the question, or, for a negated rule,
under the flipped one. -/
theorem mayAsk_evalGroups {eval : Question → RuleBody → Eval Bool}
    (heval : ∀ q r body, (eval q body).MayAsk r →
      r.assume = q.assume ∧ Premise env q.node r.node body)
    {q r : Question} {st : GroupState} {l : List Rule} (hr : (evalGroups eval q st l).MayAsk r) :
    ∃ ρ ∈ l, Premise env q.node r.node ρ.body ∧
      (r.assume = q.assume ∨ ρ.negated = true ∧ r.assume = !q.assume) := by
  induction l generalizing st with
  | nil => exact absurd hr Walk.not_asked_done
  | cons ρ l ih =>
    have htail : ∀ {st' : GroupState}, (evalGroups eval q st' l).MayAsk r →
        ∃ ρ' ∈ ρ :: l, Premise env q.node r.node ρ'.body ∧
          (r.assume = q.assume ∨ ρ'.negated = true ∧ r.assume = !q.assume) := by
      intro st' h
      obtain ⟨ρ', hρ', h⟩ := ih h
      exact ⟨ρ', List.mem_cons_of_mem ρ hρ', h⟩
    have hhead : (eval q ρ.body).MayAsk r →
        ∃ ρ' ∈ ρ :: l, Premise env q.node r.node ρ'.body ∧
          (r.assume = q.assume ∨ ρ'.negated = true ∧ r.assume = !q.assume) := by
      intro h
      obtain ⟨ha, hp⟩ := heval _ _ _ h
      exact ⟨ρ, List.mem_cons_self, hp, .inl ha⟩
    rw [evalGroups] at hr
    split at hr
    · exact absurd hr Walk.not_asked_done
    · dsimp only at hr
      generalize (if ρ.groupId ≠ st.curGroup then GroupState.start ρ else st) = st' at hr
      split at hr
      · exact htail hr
      · -- whatever the operator, the question is of this rule or of a later one
        split at hr
        · cases hr
        · rcases Walk.mayAsk_orElse hr with hr | hr
          · exact hhead hr
          · exact htail hr
        · rcases Walk.mayAsk_bind hr with hr | ⟨c, hr⟩
          · exact hhead hr
          · exact htail hr
        · split at hr
          · rename_i hneg
            rcases Walk.mayAsk_bind hr with hr | ⟨c, hr⟩
            · obtain ⟨ha, hp⟩ := heval _ _ _ hr
              exact ⟨ρ, List.mem_cons_self, hp, .inr ⟨hneg, ha⟩⟩
            · exact htail hr
          · rcases Walk.mayAsk_bind hr with hr | ⟨c, hr⟩
            · exact hhead hr
            · exact htail hr

/-- A walk that raises only the errors the condition evaluation passes on. -/
def RaisesOnlyAborts {α : Type} (w : Eval α) : Prop := ¬ w.MayRaise .caseNotFound

theorem raisesOnlyAborts_lift {a : Bool} {t : Tuple} : RaisesOnlyAborts
    (Walk.lift (evalCondition env.toConditionEnv a t.conditionId t.conditionContext)) := by
  intro he
  have hne := evalCondition_ne_caseNotFound env.toConditionEnv a t.conditionId t.conditionContext
  cases hc : evalCondition env.toConditionEnv a t.conditionId t.conditionContext with
  | ok c =>
    rw [hc] at he
    cases he
  | error e =>
    rw [hc] at he hne
    cases he
    exact hne rfl

theorem raisesOnlyAborts_probe {a : Bool} {row : Tuple → Bool} :
    RaisesOnlyAborts (probe env a row) := by
  intro he
  unfold probe at he
  split at he
  · cases he
  · obtain ⟨t, -, he⟩ := Walk.mayRaise_any he
    exact raisesOnlyAborts_lift he

theorem raisesOnlyAborts_probeUnless {skip a : Bool} {row : Tuple → Bool} :
    RaisesOnlyAborts (probeUnless skip env a row) := by
  intro he
  unfold probeUnless at he
  split at he
  · cases he
  · exact raisesOnlyAborts_probe he

theorem raisesOnlyAborts_query {q : Question} : RaisesOnlyAborts (Walk.query q) := by
  intro he
  cases he with
  | there h => cases h

theorem raisesOnlyAborts_followRows {a : Bool} {rows : List Tuple}
    {target : Tuple → Option Node} : RaisesOnlyAborts (followRows env a rows target) := by
  intro he
  obtain ⟨t, -, he⟩ := Walk.mayRaise_any he
  cases hn : target t with
  | none =>
    simp only [hn] at he
    cases he
  | some n =>
    simp only [hn] at he
    rcases Walk.mayRaise_bind he with he | ⟨c, he⟩
    · exact raisesOnlyAborts_lift he
    · cases c with
      | false => cases he
      | true => exact raisesOnlyAborts_query he

theorem raisesOnlyAborts_followCtxRows {a : Bool} {target : CtxTuple → Option Node} :
    RaisesOnlyAborts (followCtxRows env a target) := by
  intro he
  unfold followCtxRows at he
  split at he
  · obtain ⟨t, -, he⟩ := Walk.mayRaise_any he
    cases hn : target t with
    | none =>
      simp only [hn] at he
      cases he
    | some n =>
      simp only [hn] at he
      exact raisesOnlyAborts_query he
  · cases he

theorem raisesOnlyAborts_evalRule {q : Question} {body : RuleBody} :
    RaisesOnlyAborts (evalRule env q body) := by
  intro he
  cases body with
  | direct =>
    rcases Walk.mayRaise_orElse he with he | he
    · exact raisesOnlyAborts_probeUnless he
    rcases Walk.mayRaise_orElse he with he | he
    · exact raisesOnlyAborts_probeUnless he
    rcases Walk.mayRaise_orElse he with he | he
    · exact raisesOnlyAborts_probe he
    split at he
    · cases he
    rcases Walk.mayRaise_orElse he with he | he
    · exact raisesOnlyAborts_followRows he
    rcases Walk.mayRaise_orElse he with he | he
    · exact raisesOnlyAborts_followRows he
    · exact raisesOnlyAborts_followCtxRows he
  | computed r => exact raisesOnlyAborts_query he
  | ttu ts c =>
    rcases Walk.mayRaise_orElse he with he | he
    · exact raisesOnlyAborts_followRows he
    · exact raisesOnlyAborts_followCtxRows he

/-- With non-negative group ids the operator of the current group is never NULL. -/
theorem raisesOnlyAborts_evalGroups {q : Question} {st : GroupState} {l : List Rule}
    (hst : st.curGroupOp = none → ∀ ρ ∈ l, ρ.groupId ≠ st.curGroup) :
    RaisesOnlyAborts (evalGroups (evalRule env) q st l) := by
  induction l generalizing st with
  | nil => exact fun he => nomatch he
  | cons ρ l ih =>
    intro he
    rw [evalGroups] at he
    split at he
    · cases he
    · dsimp only at he
      set st' := if ρ.groupId ≠ st.curGroup then GroupState.start ρ else st with hst'
      have hop : st'.curGroupOp ≠ none := by
        by_cases hρ : ρ.groupId = st.curGroup
        · have : st' = st := by simp [hst', hρ]
          rw [this]
          exact fun h => hst h ρ (by simp) hρ
        · have : st' = .start ρ := by simp [hst', hρ]
          simp [this, GroupState.start]
      have htail : ∀ st'' : GroupState, st''.curGroupOp = st'.curGroupOp →
          RaisesOnlyAborts (evalGroups (evalRule env) q st'' l) :=
        fun st'' h => ih fun h' => absurd (h.symm.trans h') hop
      have hkeep : ∀ c : Bool, (if c = true then st' else st'.fail).curGroupOp = st'.curGroupOp ∧
          (if c = true then st'.fail else st').curGroupOp = st'.curGroupOp := by
        intro c
        cases c <;> exact ⟨rfl, rfl⟩
      split at he
      · exact htail st' rfl he
      · split at he
        · exact absurd ‹_› hop
        · rcases Walk.mayRaise_orElse he with he | he
          · exact raisesOnlyAborts_evalRule he
          · exact htail st' rfl he
        · rcases Walk.mayRaise_bind he with he | ⟨c, he⟩
          · exact raisesOnlyAborts_evalRule he
          · exact htail _ (hkeep c).1 he
        · split at he
          · rcases Walk.mayRaise_bind he with he | ⟨c, he⟩
            · exact raisesOnlyAborts_evalRule he
            · exact htail _ (hkeep c).2 he
          · rcases Walk.mayRaise_bind he with he | ⟨c, he⟩
            · exact raisesOnlyAborts_evalRule he
            · exact htail _ (hkeep c).1 he

/-! ## The nodes of a check -/

/-- The relations a check can ask: the root's, those the rules name and those of usersets. -/
def checkRelations (env : CheckEnv) (root : Node) : List ℕ :=
  root.relation :: (env.rules.flatMap fun ρ => match ρ.body with
      | .direct => []
      | .computed r => [r]
      | .ttu _ c => [c]) ++
    env.tuples.filterMap Tuple.userRelation ++ env.ctxTuples.filterMap CtxTuple.userRelation

/-- The objects a check can ask about: the root's and the subjects of tuples. -/
def checkObjects (env : CheckEnv) (root : Node) : List (ℕ × String) :=
  (root.objectType, root.objectId) :: env.tuples.map (fun t => (t.userType, t.userId)) ++
    env.ctxTuples.map (fun t => (t.userType, t.userId))

/-- The nodes a check from `root` can visit. -/
def checkNodes (env : CheckEnv) (root : Node) : Finset Node :=
  ((checkRelations env root ×ˢ checkObjects env root).map fun p => ⟨p.1, p.2.1, p.2.2⟩).toFinset

theorem mem_checkNodes {root n : Node} : n ∈ checkNodes env root ↔
    n.relation ∈ checkRelations env root ∧ (n.objectType, n.objectId) ∈ checkObjects env root := by
  rw [checkNodes, List.mem_toFinset, List.mem_map]
  constructor
  · rintro ⟨⟨r, T, o⟩, hp, rfl⟩
    exact List.pair_mem_product.mp hp
  · intro hn
    exact ⟨(n.relation, n.objectType, n.objectId), List.pair_mem_product.mpr hn, rfl⟩

theorem userset_mem_checkNodes {root n n' : Node}
    (hn : Premise env n n' .direct) : n' ∈ checkNodes env root := by
  rw [mem_checkNodes, checkRelations, checkObjects]
  rcases hn with ⟨t, ht, hn⟩ | ⟨-, t, ht, hn⟩
  · unfold usersetNode at hn
    split at hn
    · obtain ⟨r, hr, rfl⟩ := Option.map_eq_some_iff.mp hn
      constructor
      · simp only [List.mem_append, List.mem_filterMap]
        exact .inl (.inr ⟨t, ht, hr⟩)
      · simp only [List.mem_append, List.mem_cons, List.mem_map]
        exact .inl (.inr ⟨t, ht, rfl⟩)
    · cases hn
  · unfold ctxUsersetNode at hn
    split at hn
    · obtain ⟨r, hr, rfl⟩ := Option.map_eq_some_iff.mp hn
      constructor
      · simp only [List.mem_append, List.mem_filterMap]
        exact .inr ⟨t, ht, hr⟩
      · simp only [List.mem_append, List.mem_map]
        exact .inr ⟨t, ht, rfl⟩
    · cases hn

theorem linked_mem_checkObjects (root : Node) {n n' : Node} {ts c : ℕ}
    (hn : Premise env n n' (.ttu ts c)) :
    n'.relation = c ∧ (n'.objectType, n'.objectId) ∈ checkObjects env root := by
  rw [checkObjects, List.mem_append, List.mem_cons, List.mem_map, List.mem_map]
  rcases hn with ⟨t, ht, hn⟩ | ⟨-, t, ht, hn⟩
  · unfold linkNode at hn
    split at hn
    · cases hn
      exact ⟨rfl, .inl (.inr ⟨t, ht, rfl⟩)⟩
    · cases hn
  · unfold ctxLinkNode at hn
    split at hn
    · cases hn
      exact ⟨rfl, .inr ⟨t, ht, rfl⟩⟩
    · cases hn

/-- A check stays within its nodes. -/
theorem checkNodes_closed {root n n' : Node} (hn : n ∈ checkNodes env root)
    (hdep : DependsOnNode env n n') : n' ∈ checkNodes env root := by
  obtain ⟨ρ, hρ, hp⟩ := hdep
  have hrule : ∀ r, (match ρ.body with
      | .direct => []
      | .computed r => [r]
      | .ttu _ c => [c]) = [r] → r ∈ checkRelations env root := by
    intro r hr
    simp only [checkRelations, List.mem_append, List.mem_cons, List.mem_flatMap]
    exact .inl (.inl (.inr ⟨ρ, (mem_orderedRules.mp hρ).1, by rw [hr]; simp⟩))
  cases hbody : ρ.body with
  | direct =>
    rw [hbody] at hp
    exact userset_mem_checkNodes hp
  | computed r =>
    rw [hbody] at hp hrule
    cases hp
    exact mem_checkNodes.mpr ⟨hrule r rfl, (mem_checkNodes.mp hn).2⟩
  | ttu ts c =>
    rw [hbody] at hp hrule
    obtain ⟨hr, hobj⟩ := linked_mem_checkObjects root hp
    exact mem_checkNodes.mpr ⟨by rw [hr]; exact hrule c rfl, hobj⟩

theorem root_mem_checkNodes (env : CheckEnv) (root : Node) : root ∈ checkNodes env root := by
  simp [mem_checkNodes, checkRelations, checkObjects]

/-- The keys of the nodes a check from `root` can visit. -/
def checkKeys (env : CheckEnv) (root : Node) : Finset String := (checkNodes env root).image pathKey

theorem mem_checkKeys {root n : Node} : pathKey n ∈ checkKeys env root ↔ n ∈ checkNodes env root :=
  pathKey_injective.mem_finset_image

theorem checkKeys_closed {root n n' : Node} (hn : pathKey n ∈ checkKeys env root)
    (hdep : DependsOnNode env n n') : pathKey n' ∈ checkKeys env root := by
  rw [mem_checkKeys] at hn ⊢
  exact checkNodes_closed hn hdep

end PgAuthz
