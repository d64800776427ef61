import PgAuthz.Engine.Evaluator
import PgAuthz.Resolution.Stratified

/-!
# What a model means

The rules of a store read as a rule system over questions: which questions a rule holds for, given
the questions that hold. A group combines its rules, the groups of a relation are alternatives, and
the negated rules of an exclusion group are read under the flipped missing-context switch. A model
in which no relation depends on itself through a negated rule has one iterated least fixpoint.

## Main definitions

* `DirectHolds`, `RuleHolds`, `GroupHolds`: a rule and a group over a set of questions
* `Premise`: the nodes a rule may depend on
* `ruleSystem env`: the rules as a rule system
* `Stratified env`: no relation depends on itself through a negated rule
* `Holds env hs q`: the stratified least-fixpoint semantics
-/

namespace PgAuthz

open Resolution
open Relation (ReflTransGen)

variable (env : CheckEnv)

/-! ## Rules over a set of questions -/

/-- The condition of a tuple passes while the switch is `assume`. -/
def Passes (assume : Bool) (t : Tuple) : Prop :=
  evalCondition env.toConditionEnv assume t.conditionId t.conditionContext = .ok true

/-- The tuple that the check leaves out. -/
def LeftOut (t : Tuple) : Prop :=
  env.exclude = some ⟨t.userType, t.userId, t.relation, t.objectType, t.objectId⟩

/-- A stored tuple gives the subject, or every subject of its type, the relation on the object of
the node or on every object of its type. -/
def StoredGrant (assume : Bool) (n : Node) : Prop :=
  ∃ t ∈ env.tuples, t.relation = n.relation ∧ t.objectType = n.objectType ∧
    (t.objectId = n.objectId ∧ ¬ LeftOut env t ∨ t.objectId = wildcard) ∧
    t.userType = env.userType ∧ (t.userId = env.userId ∨ t.userId = wildcard) ∧
    t.userRelation = none ∧ Passes env assume t

/-- A contextual tuple gives the subject, or every subject of its type, the relation on the object
of the node. -/
def ContextualGrant (n : Node) : Prop :=
  env.hasCtxTuples ∧ ∃ t ∈ env.ctxTuples, t.relation = n.relation ∧ t.objectType = n.objectType ∧
    t.objectId = n.objectId ∧ t.userType = env.userType ∧
    (t.userId = env.userId ∨ t.userId = wildcard) ∧ t.userRelation = none

/-- The node `n'` is a userset with the relation of `n` on its object. -/
def Userset (assume : Bool) (n n' : Node) : Prop :=
  (∃ t ∈ env.tuples, usersetNode n t = some n' ∧ Passes env assume t) ∨
    (env.hasCtxTuples ∧ ∃ t ∈ env.ctxTuples, ctxUsersetNode n t = some n')

/-- The node `n'` is the computed relation on an object linked to the object of `n`. -/
def Linked (assume : Bool) (n : Node) (tuplesetRelation tuplesetComputed : ℕ) (n' : Node) : Prop :=
  (∃ t ∈ env.tuples, linkNode n tuplesetRelation tuplesetComputed t = some n' ∧
      Passes env assume t) ∨
    (env.hasCtxTuples ∧ ∃ t ∈ env.ctxTuples, ctxLinkNode n tuplesetRelation tuplesetComputed t =
      some n')

/-- A direct rule: a stored or contextual tuple, or a userset that holds. -/
def DirectHolds (X : Set Question) (q : Question) : Prop :=
  StoredGrant env q.assume q.node ∨ ContextualGrant env q.node ∨
    ∃ n', Userset env q.assume q.node n' ∧ ⟨n', q.assume⟩ ∈ X

/-- A rule over the questions `X`. -/
def RuleHolds (X : Set Question) (q : Question) : RuleBody → Prop
  | .direct => DirectHolds env X q
  | .computed r => ⟨{ q.node with relation := r }, q.assume⟩ ∈ X
  | .ttu tuplesetRelation tuplesetComputed =>
    ∃ n', Linked env q.assume q.node tuplesetRelation tuplesetComputed n' ∧ ⟨n', q.assume⟩ ∈ X

/-- The question under the flipped switch. -/
def Question.flip (q : Question) : Question := { q with assume := !q.assume }

/-- The rules of a group of a relation, in evaluation order. -/
def groupRules (n : Node) (g : ℤ) : List Rule :=
  (orderedRules env.rules n.objectType n.relation).filter fun ρ => ρ.groupId = g

/-- A group over the questions `X`, with its negated rules over `N`. Its operator is that of its
first rule. -/
def GroupHolds (X N : Set Question) (q : Question) (g : ℤ) : Prop :=
  ∃ first, (groupRules env q.node g).head? = some first ∧
    match first.groupOp with
    | .or => ∃ ρ ∈ groupRules env q.node g, RuleHolds env X q ρ.body
    | .and => ∀ ρ ∈ groupRules env q.node g, RuleHolds env X q ρ.body
    | .exclusion =>
      (∃ ρ ∈ groupRules env q.node g, ρ.negated = false) ∧
      (∀ ρ ∈ groupRules env q.node g, ρ.negated = false → RuleHolds env X q ρ.body) ∧
      ∀ ρ ∈ groupRules env q.node g, ρ.negated = true → ¬ RuleHolds env N q.flip ρ.body

/-! ## Dependencies -/

/-- The nodes a rule may depend on, whatever its conditions. -/
def Premise (n : Node) (n' : Node) : RuleBody → Prop
  | .direct => (∃ t ∈ env.tuples, usersetNode n t = some n') ∨
      (env.hasCtxTuples ∧ ∃ t ∈ env.ctxTuples, ctxUsersetNode n t = some n')
  | .computed r => n' = { n with relation := r }
  | .ttu tuplesetRelation tuplesetComputed =>
      (∃ t ∈ env.tuples, linkNode n tuplesetRelation tuplesetComputed t = some n') ∨
      (env.hasCtxTuples ∧ ∃ t ∈ env.ctxTuples,
        ctxLinkNode n tuplesetRelation tuplesetComputed t = some n')

/-- A relation of an object type. -/
def Node.key (n : Node) : ℕ × ℕ := (n.objectType, n.relation)

/-- A rule of the node may depend on `n'`. -/
def DependsOnNode (n n' : Node) : Prop :=
  ∃ ρ ∈ orderedRules env.rules n.objectType n.relation, Premise env n n' ρ.body

/-- A negated rule of the node may depend on `n'`. -/
def NegatesNode (n n' : Node) : Prop :=
  ∃ ρ ∈ orderedRules env.rules n.objectType n.relation, ρ.negated = true ∧ Premise env n n' ρ.body

/-- A relation depends on another one: some node of the one may depend on a node of the other. -/
def DependsOn (k k' : ℕ × ℕ) : Prop :=
  ∃ n n', n.key = k ∧ n'.key = k' ∧ DependsOnNode env n n'

/-- **No relation depends on itself through a negated rule.** -/
def Stratified : Prop :=
  ∀ n n', NegatesNode env n n' → ¬ ReflTransGen (DependsOn env) n'.key n.key

theorem NegatesNode.dependsOnNode {n n' : Node} (h : NegatesNode env n n') :
    DependsOnNode env n n' := by
  obtain ⟨ρ, hρ, -, hp⟩ := h
  exact ⟨ρ, hρ, hp⟩

/-! ## The rule system -/

variable {env}

theorem Userset.premise {a : Bool} {n n' : Node} (h : Userset env a n n') :
    Premise env n n' .direct := by
  rcases h with ⟨t, ht, hn, -⟩ | h
  · exact .inl ⟨t, ht, hn⟩
  · exact .inr h

theorem Linked.premise {a : Bool} {n n' : Node} {ts c : ℕ} (h : Linked env a n ts c n') :
    Premise env n n' (.ttu ts c) := by
  rcases h with ⟨t, ht, hn, -⟩ | h
  · exact .inl ⟨t, ht, hn⟩
  · exact .inr h

theorem RuleHolds.mono {X Y : Set Question} (h : X ⊆ Y) {q : Question} {body : RuleBody}
    (hq : RuleHolds env X q body) : RuleHolds env Y q body := by
  cases body with
  | direct =>
    rcases hq with hq | hq | ⟨n', hn, hX⟩
    · exact .inl hq
    · exact .inr (.inl hq)
    · exact .inr (.inr ⟨n', hn, h hX⟩)
  | computed r => exact h hq
  | ttu ts c =>
    obtain ⟨n', hn, hX⟩ := hq
    exact ⟨n', hn, h hX⟩

/-- A rule depends only on its premises, under the switch of the question. -/
theorem RuleHolds.congr {X Y : Set Question} {q : Question} {body : RuleBody}
    (h : ∀ n', Premise env q.node n' body → (⟨n', q.assume⟩ ∈ X ↔ ⟨n', q.assume⟩ ∈ Y)) :
    RuleHolds env X q body ↔ RuleHolds env Y q body := by
  cases body with
  | direct =>
    refine or_congr Iff.rfl (or_congr Iff.rfl (exists_congr fun n' => ?_))
    exact and_congr_right fun hn => h n' hn.premise
  | computed r => exact h _ rfl
  | ttu ts c => exact exists_congr fun n' => and_congr_right fun hn => h n' hn.premise

/-- A rule that holds has a grant or a premise that holds. -/
theorem RuleHolds.grant_or_premise {X : Set Question} {q : Question} {body : RuleBody}
    (h : RuleHolds env X q body) : StoredGrant env q.assume q.node ∨ ContextualGrant env q.node ∨
      ∃ n', Premise env q.node n' body ∧ ⟨n', q.assume⟩ ∈ X := by
  cases body with
  | direct => exact h.imp_right (.imp_right fun ⟨n', hn, hX⟩ => ⟨n', hn.premise, hX⟩)
  | computed r => exact .inr (.inr ⟨_, rfl, h⟩)
  | ttu ts c =>
    obtain ⟨n', hn, hX⟩ := h
    exact .inr (.inr ⟨n', hn.premise, hX⟩)

theorem mem_groupRules {n : Node} {g : ℤ} {ρ : Rule} (h : ρ ∈ groupRules env n g) :
    ρ ∈ orderedRules env.rules n.objectType n.relation :=
  List.mem_of_mem_filter h

theorem GroupHolds.mono {X Y N : Set Question} (h : X ⊆ Y) {q : Question} {g : ℤ}
    (hg : GroupHolds env X N q g) : GroupHolds env Y N q g := by
  obtain ⟨first, hfirst, hg⟩ := hg
  refine ⟨first, hfirst, ?_⟩
  revert hg
  cases first.groupOp with
  | or => exact fun ⟨ρ, hρ, hX⟩ => ⟨ρ, hρ, hX.mono h⟩
  | and => exact fun hall ρ hρ => (hall ρ hρ).mono h
  | exclusion => exact fun ⟨hbase, hall, hneg⟩ => ⟨hbase, fun ρ hρ hn => (hall ρ hρ hn).mono h, hneg⟩

theorem GroupHolds.congr {X X' N N' : Set Question} {q : Question} {g : ℤ}
    (hX : ∀ n', DependsOnNode env q.node n' → (⟨n', q.assume⟩ ∈ X ↔ ⟨n', q.assume⟩ ∈ X'))
    (hN : ∀ n', NegatesNode env q.node n' → (⟨n', !q.assume⟩ ∈ N ↔ ⟨n', !q.assume⟩ ∈ N')) :
    GroupHolds env X N q g ↔ GroupHolds env X' N' q g := by
  have hpos : ∀ ρ ∈ groupRules env q.node g,
      (RuleHolds env X q ρ.body ↔ RuleHolds env X' q ρ.body) := fun ρ hρ =>
    RuleHolds.congr fun n' hn => hX n' ⟨ρ, mem_groupRules hρ, hn⟩
  have hneg : ∀ ρ ∈ groupRules env q.node g, ρ.negated = true →
      (RuleHolds env N q.flip ρ.body ↔ RuleHolds env N' q.flip ρ.body) := fun ρ hρ hn =>
    RuleHolds.congr fun n' hn' => hN n' ⟨ρ, mem_groupRules hρ, hn, hn'⟩
  refine exists_congr fun first => and_congr_right fun _ => ?_
  cases first.groupOp with
  | or => exact exists_congr fun ρ => and_congr_right fun hρ => hpos ρ hρ
  | and => exact forall₂_congr fun ρ hρ => hpos ρ hρ
  | exclusion =>
    refine and_congr Iff.rfl (and_congr ?_ ?_)
    · exact forall₂_congr fun ρ hρ => imp_congr_right fun _ => hpos ρ hρ
    · exact forall₂_congr fun ρ hρ => imp_congr_right fun hn => not_congr (hneg ρ hρ hn)

variable (env)

/-- The rules of a store as a rule system over questions. -/
def ruleSystem : RuleSystem Question where
  step X N := {q | ∃ g, GroupHolds env X N q g}
  pos q r := r.assume = q.assume ∧ DependsOnNode env q.node r.node
  neg q r := r.assume = !q.assume ∧ NegatesNode env q.node r.node
  step_mono N X Y h q hq := by
    obtain ⟨g, hg⟩ := hq
    exact ⟨g, hg.mono h⟩
  step_congr hX hN := exists_congr fun _ =>
    GroupHolds.congr (fun n' hn => hX ⟨n', _⟩ ⟨rfl, hn⟩) fun n' hn => hN ⟨n', _⟩ ⟨rfl, hn⟩

/-- The relations with a negated rule. -/
def negatingKeys : Finset (ℕ × ℕ) :=
  ((env.rules.filter Rule.negated).map fun ρ => (ρ.objectType, ρ.relation)).toFinset

variable {env}

theorem NegatesNode.key_mem {n n' : Node} (h : NegatesNode env n n') :
    n.key ∈ negatingKeys env := by
  obtain ⟨ρ, hρ, hneg, -⟩ := h
  obtain ⟨hmem, hT, hr⟩ := mem_orderedRules.mp hρ
  rw [negatingKeys, List.mem_toFinset, List.mem_map]
  exact ⟨ρ, List.mem_filter.mpr ⟨hmem, hneg⟩, by rw [hT, hr]; rfl⟩

/-- The levels of a stratified model: the relations with a negated rule that a relation depends
on. -/
noncomputable def stratification (hs : Stratified env) : (ruleSystem env).Stratification where
  level q := negationDepth (DependsOn env) (negatingKeys env) q.node.key
  pos_le h := negationDepth_le _ ⟨_, _, rfl, rfl, h.2⟩
  neg_lt h := negationDepth_lt h.2.key_mem ⟨_, _, rfl, rfl, NegatesNode.dependsOnNode env h.2⟩
    (hs _ _ h.2)

/-- **The stratified least-fixpoint semantics** of a question. -/
def Holds (hs : Stratified env) (q : Question) : Prop :=
  q ∈ (ruleSystem env).leastModel (stratification hs)

/-- The question of a check is found again on the path by its node, and its switch is that of the
path where the model descends through no negated rule. -/
theorem sited_pathKey (hs : Stratified env) :
    Sited (stratification hs) (fun q => pathKey q.node) Question.assume where
  level_eq h := by
    have hn := pathKey_injective h
    simp [stratification, hn]
  eq_of {q r} h ha := by
    have hn := pathKey_injective h
    cases q
    cases r
    simp_all
  pos_pol h := h.1

end PgAuthz
