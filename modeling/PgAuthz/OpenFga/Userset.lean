import PgAuthz.Engine.Semantics

/-!
# Relation definitions of OpenFGA

An OpenFGA model defines each relation of a type by a tree of set operators over three kinds of
leaves. A leaf reads the tuples and the other relations; a subtracted leaf is read the other way
round, so a definition has a meaning once its leaves have one on either side. Types, relations and
conditions are named by their ids, as in the store.

## Main definitions

* `Leaf`, `Userset`: the leaves and the trees of a relation definition
* `Userset.Means leaf added u`: what a tree means, given what its leaves mean
* `Leaf.Means env X q l`: what a leaf means over the questions that hold
* `AuthorizationModel`: the relation definitions of the types
* `AuthorizationModel.system`: the definitions as a rule system over questions

## Main results

* `Userset.Means.mono`, `Userset.means_congr`: a tree is monotone in its added leaves, and depends on
  its own leaves only
-/

namespace PgAuthz.OpenFga

open Resolution

/-! ## Trees of set operators -/

/-- A leaf of a relation definition: the tuples of the relation, another relation of the object, or a
relation of the objects a tupleset links. -/
inductive Leaf
  | this
  | computedUserset (relation : ℕ)
  | tupleToUserset (tupleset computedUserset : ℕ)
deriving DecidableEq, Repr

/-- A relation definition. -/
inductive Userset
  | rule (leaf : Leaf)
  | union (child : List Userset)
  | intersection (child : List Userset)
  | difference (base subtract : Userset)

/-- Induction over a tree: a property of the children of an operator passes to its tree. -/
@[elab_as_elim]
theorem Userset.tree_induction {motive : Userset → Prop} (rule : ∀ l, motive (.rule l))
    (union : ∀ child, (∀ u ∈ child, motive u) → motive (.union child))
    (intersection : ∀ child, (∀ u ∈ child, motive u) → motive (.intersection child))
    (difference : ∀ base subtract, motive base → motive subtract →
      motive (.difference base subtract)) : ∀ u, motive u
  | .rule l => rule l
  | .union child => union child fun u hu =>
      have := List.sizeOf_lt_of_mem hu
      Userset.tree_induction rule union intersection difference u
  | .intersection child => intersection child fun u hu =>
      have := List.sizeOf_lt_of_mem hu
      Userset.tree_induction rule union intersection difference u
  | .difference base subtract => difference base subtract
      (Userset.tree_induction rule union intersection difference base)
      (Userset.tree_induction rule union intersection difference subtract)
termination_by u => sizeOf u
decreasing_by
  all_goals simp_wf
  all_goals omega

section Meaning

variable (leaf : Bool → Leaf → Prop)

mutual

/-- What a tree means, given what a leaf means where it is added and where it is subtracted. An
intersection of nothing holds for nobody. -/
def Userset.Means : Bool → Userset → Prop
  | added, .rule l => leaf added l
  | added, .union child => Userset.SomeMeans added child
  | added, .intersection child => child ≠ [] ∧ Userset.AllMean added child
  | added, .difference base subtract => base.Means added ∧ ¬ subtract.Means (!added)

/-- Some tree of a list holds. -/
def Userset.SomeMeans : Bool → List Userset → Prop
  | _, [] => False
  | added, u :: us => u.Means added ∨ Userset.SomeMeans added us

/-- Every tree of a list holds. -/
def Userset.AllMean : Bool → List Userset → Prop
  | _, [] => True
  | added, u :: us => u.Means added ∧ Userset.AllMean added us

end

variable {leaf}

theorem Userset.someMeans_iff {added : Bool} {us : List Userset} :
    Userset.SomeMeans leaf added us ↔ ∃ u ∈ us, u.Means leaf added := by
  induction us with
  | nil => simp [Userset.SomeMeans]
  | cons u us ih => simp [Userset.SomeMeans, ih]

theorem Userset.allMean_iff {added : Bool} {us : List Userset} :
    Userset.AllMean leaf added us ↔ ∀ u ∈ us, u.Means leaf added := by
  induction us with
  | nil => simp [Userset.AllMean]
  | cons u us ih => simp [Userset.AllMean, ih]

@[simp]
theorem Userset.means_rule {added : Bool} {l : Leaf} :
    (Userset.rule l).Means leaf added ↔ leaf added l := by
  rw [Userset.Means]

@[simp]
theorem Userset.means_union {added : Bool} {child : List Userset} :
    (Userset.union child).Means leaf added ↔ ∃ u ∈ child, u.Means leaf added := by
  rw [Userset.Means, Userset.someMeans_iff]

@[simp]
theorem Userset.means_intersection {added : Bool} {child : List Userset} :
    (Userset.intersection child).Means leaf added ↔
      child ≠ [] ∧ ∀ u ∈ child, u.Means leaf added := by
  rw [Userset.Means, Userset.allMean_iff]

@[simp]
theorem Userset.means_difference {added : Bool} {base subtract : Userset} :
    (Userset.difference base subtract).Means leaf added ↔
      base.Means leaf added ∧ ¬ subtract.Means leaf (!added) := by
  rw [Userset.Means]

variable {leaf' : Bool → Leaf → Prop}

/-- A tree grows with its added leaves and shrinks with its subtracted ones. -/
theorem Userset.Means.mono {added : Bool} {u : Userset} (h : ∀ l, leaf added l → leaf' added l)
    (h' : ∀ l, leaf' (!added) l → leaf (!added) l) (hu : u.Means leaf added) :
    u.Means leaf' added := by
  induction u using Userset.tree_induction generalizing added leaf leaf' with
  | rule l =>
    rw [Userset.means_rule] at hu ⊢
    exact h l hu
  | union child ih =>
    rw [Userset.means_union] at hu ⊢
    obtain ⟨u, hu, hm⟩ := hu
    exact ⟨u, hu, ih u hu h h' hm⟩
  | intersection child ih =>
    rw [Userset.means_intersection] at hu ⊢
    exact ⟨hu.1, fun u hu' => ih u hu' h h' (hu.2 u hu')⟩
  | difference base subtract ihb ihs =>
    rw [Userset.means_difference] at hu ⊢
    -- the subtracted side reads the leaves the other way round
    refine ⟨ihb h h' hu.1, fun hs => hu.2 (ihs h' ?_ hs)⟩
    simpa only [Bool.not_not] using h

mutual

/-- The leaves of a tree with the side each one is read on. -/
def Userset.leaves : Bool → Userset → List (Bool × Leaf)
  | added, .rule l => [(added, l)]
  | added, .union child => Userset.listLeaves added child
  | added, .intersection child => Userset.listLeaves added child
  | added, .difference base subtract => base.leaves added ++ subtract.leaves (!added)

/-- The leaves of the trees of a list. -/
def Userset.listLeaves : Bool → List Userset → List (Bool × Leaf)
  | _, [] => []
  | added, u :: us => u.leaves added ++ Userset.listLeaves added us

end

theorem Userset.mem_listLeaves {added : Bool} {u : Userset} {us : List Userset} (hu : u ∈ us)
    {x : Bool × Leaf} (hx : x ∈ u.leaves added) : x ∈ Userset.listLeaves added us := by
  induction us with
  | nil => exact absurd hu List.not_mem_nil
  | cons v us ih =>
    rw [Userset.listLeaves, List.mem_append]
    rcases List.mem_cons.mp hu with rfl | hu
    · exact .inl hx
    · exact .inr (ih hu)

/-- A tree depends on its own leaves only. -/
theorem Userset.means_congr {added : Bool} {u : Userset}
    (h : ∀ x ∈ u.leaves added, leaf x.1 x.2 ↔ leaf' x.1 x.2) :
    u.Means leaf added ↔ u.Means leaf' added := by
  induction u using Userset.tree_induction generalizing added with
  | rule l =>
    rw [Userset.means_rule, Userset.means_rule]
    exact h (added, l) (by simp [Userset.leaves])
  | union child ih =>
    rw [Userset.leaves] at h
    rw [Userset.means_union, Userset.means_union]
    exact exists_congr fun u => and_congr_right fun hu =>
      ih u hu fun x hx => h x (Userset.mem_listLeaves hu hx)
  | intersection child ih =>
    rw [Userset.leaves] at h
    rw [Userset.means_intersection, Userset.means_intersection]
    exact and_congr_right fun _ => forall₂_congr fun u hu =>
      ih u hu fun x hx => h x (Userset.mem_listLeaves hu hx)
  | difference base subtract ihb ihs =>
    rw [Userset.leaves] at h
    rw [Userset.means_difference, Userset.means_difference]
    exact and_congr (ihb fun x hx => h x (List.mem_append_left _ hx))
      (not_congr (ihs fun x hx => h x (List.mem_append_right _ hx)))

end Meaning

/-! ## Leaves over the tuples -/

/-- A contextual tuple as a tuple without a condition. -/
def ofContext (t : CtxTuple) : Tuple :=
  { userType := t.userType, userId := t.userId, userRelation := t.userRelation,
    relation := t.relation, objectType := t.objectType, objectId := t.objectId,
    conditionId := none, conditionContext := none, expiresAt := none }

variable (env : CheckEnv)

/-- The tuples a check reads: the stored ones and those of its request. -/
def tupleSet : List Tuple :=
  env.tuples ++ if env.hasCtxTuples then env.ctxTuples.map ofContext else []

/-- A tuple of a relation of the object. -/
def OnObject (relation : ℕ) (n : Node) (t : Tuple) : Prop :=
  t.relation = relation ∧ t.objectType = n.objectType ∧ t.objectId = n.objectId

/-- The subject of a tuple takes in the subject of the check: it is that subject, every subject of its
type, or a userset that holds. -/
def TakesIn (X : Set Question) (assume : Bool) (t : Tuple) : Prop :=
  match t.userRelation with
  | none => t.userType = env.userType ∧ (t.userId = env.userId ∨ t.userId = wildcard)
  | some r => ⟨⟨r, t.userType, t.userId⟩, assume⟩ ∈ X

/-- **What a leaf means** over the questions `X`. -/
def Leaf.Means (X : Set Question) (q : Question) : Leaf → Prop
  | .this => ∃ t ∈ tupleSet env, OnObject q.node.relation q.node t ∧ Passes env q.assume t ∧
      TakesIn env X q.assume t
  | .computedUserset r => ⟨{ q.node with relation := r }, q.assume⟩ ∈ X
  | .tupleToUserset tupleset computed => ∃ t ∈ tupleSet env, OnObject tupleset q.node t ∧
      Passes env q.assume t ∧ t.userRelation = none ∧ ⟨⟨computed, t.userType, t.userId⟩, q.assume⟩ ∈ X

/-- The nodes a leaf may ask about. -/
def Leaf.Asks (n n' : Node) : Leaf → Prop
  | .this => ∃ t ∈ tupleSet env, OnObject n.relation n t ∧
      t.userRelation.map (⟨·, t.userType, t.userId⟩) = some n'
  | .computedUserset r => n' = { n with relation := r }
  | .tupleToUserset tupleset computed => ∃ t ∈ tupleSet env, OnObject tupleset n t ∧
      t.userRelation = none ∧ n' = ⟨computed, t.userType, t.userId⟩

variable {env}

theorem Leaf.Means.mono {X Y : Set Question} (h : X ⊆ Y) {q : Question} {l : Leaf}
    (hq : l.Means env X q) : l.Means env Y q := by
  cases l with
  | this =>
    obtain ⟨t, ht, hon, hpass, hin⟩ := hq
    refine ⟨t, ht, hon, hpass, ?_⟩
    revert hin
    unfold TakesIn
    cases t.userRelation with
    | none => exact id
    | some r => exact fun hin => h hin
  | computedUserset r => exact h hq
  | tupleToUserset tupleset computed =>
    obtain ⟨t, ht, hon, hpass, hnone, hin⟩ := hq
    exact ⟨t, ht, hon, hpass, hnone, h hin⟩

/-- A leaf depends on the nodes it may ask about, under the switch of the question. -/
theorem Leaf.means_congr {X Y : Set Question} {q : Question} {l : Leaf}
    (h : ∀ n', l.Asks env q.node n' → (⟨n', q.assume⟩ ∈ X ↔ ⟨n', q.assume⟩ ∈ Y)) :
    l.Means env X q ↔ l.Means env Y q := by
  cases l with
  | this =>
    refine exists_congr fun t => and_congr_right fun ht => and_congr_right fun hon =>
      and_congr_right fun _ => ?_
    unfold TakesIn
    cases hr : t.userRelation with
    | none => exact Iff.rfl
    | some r => exact h _ ⟨t, ht, hon, by rw [hr]; rfl⟩
  | computedUserset r => exact h _ rfl
  | tupleToUserset tupleset computed =>
    exact exists_congr fun t => and_congr_right fun ht => and_congr_right fun hon =>
      and_congr_right fun _ => and_congr_right fun hnone => h _ ⟨t, ht, hon, hnone, rfl⟩

/-! ## Models -/

/-- A relation reference of `directly_related_user_types`: a type, its subjects through a relation or
all of them, and the condition their tuples carry. -/
structure RelationReference where
  type : ℕ
  relation : Option ℕ
  wildcard : Bool
  condition : Option ℕ
deriving DecidableEq, Repr

/-- A relation with its definition and its metadata. -/
structure RelationDefinition where
  name : ℕ
  rewrite : Userset
  directlyRelatedUserTypes : Option (List RelationReference)

/-- A type with its relations; the keys of a JSON object are distinct. -/
structure TypeDefinition where
  type : ℕ
  relations : List RelationDefinition
  nodup : (relations.map RelationDefinition.name).Nodup

/-- An authorization model: each type is defined once. -/
structure AuthorizationModel where
  typeDefinitions : List TypeDefinition
  nodup : (typeDefinitions.map TypeDefinition.type).Nodup

namespace AuthorizationModel

/-- The relation is defined on the type by the tree `u`. -/
def Defines (m : AuthorizationModel) (type relation : ℕ) (u : Userset) : Prop :=
  ∃ d ∈ m.typeDefinitions, d.type = type ∧ ∃ e ∈ d.relations, e.name = relation ∧ e.rewrite = u

/-- What a leaf of a definition means where it is added, over `X`, and where it is subtracted, over
`N` and under the flipped switch. -/
def Sides (env : CheckEnv) (X N : Set Question) (q : Question) : Bool → Leaf → Prop
  | true => Leaf.Means env X q
  | false => Leaf.Means env N q.flip

/-- **The meaning of a relation** over the questions `X`, with what is subtracted over `N`: a relation
without a definition holds for nobody. -/
def Means (m : AuthorizationModel) (env : CheckEnv) (X N : Set Question) (q : Question) : Prop :=
  ∃ u, m.Defines q.node.objectType q.node.relation u ∧ u.Means (Sides env X N q) true

/-- A definition of the relation has a leaf on the side `added` that may ask about the node. -/
def AsksOn (m : AuthorizationModel) (env : CheckEnv) (added : Bool) (n n' : Node) : Prop :=
  ∃ u, m.Defines n.objectType n.relation u ∧ ∃ l, (added, l) ∈ u.leaves true ∧ l.Asks env n n'

/-- The definitions of a model as a rule system over questions. -/
def system (m : AuthorizationModel) (env : CheckEnv) : RuleSystem Question where
  step X N := {q | m.Means env X N q}
  pos q r := r.assume = q.assume ∧ m.AsksOn env true q.node r.node
  neg q r := r.assume = !q.assume ∧ m.AsksOn env false q.node r.node
  step_mono N X Y h q hq := by
    obtain ⟨u, hu, hm⟩ := hq
    have hadd : ∀ l, Sides env X N q true l → Sides env Y N q true l := fun l => Leaf.Means.mono h
    exact ⟨u, hu, hm.mono hadd fun l => id⟩
  step_congr := by
    intro q X X' N N' hX hN
    refine exists_congr fun u => and_congr_right fun hu => Userset.means_congr ?_
    rintro ⟨_ | _, l⟩ hl
    · exact Leaf.means_congr fun n' hn => hN ⟨n', _⟩ ⟨rfl, u, hu, l, hl, hn⟩
    · exact Leaf.means_congr fun n' hn => hX ⟨n', _⟩ ⟨rfl, u, hu, l, hl, hn⟩

end AuthorizationModel

end PgAuthz.OpenFga
