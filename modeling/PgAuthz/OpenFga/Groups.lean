import PgAuthz.Engine.Semantics

/-!
# Groups of a rule list

The meaning of a group of rules, read off the rules themselves: where the rules of a group agree on
its operator, the group is a disjunction of its rules or a conjunction of literals, and its place in
the evaluation order is of no account. Rule lists are then put together group by group.

## Main definitions

* `Rule.Literal term ρ`: a rule, or the negation of a negated one
* `GroupMeans rules term g`, `SomeGroupMeans rules term`: a group, and the groups of a list together
* `WellGrouped rules`: the rules of a group agree on its operator, and only exclusions negate

## Main results

* `groupHolds_iff`: the engine's group is the group of its rules
* `someGroupMeans_append`: lists of different groups are alternatives
* `someGroupMeans_concat`: a rule added to a disjunction is an alternative
* `someGroupMeans_block`: a conjunction or an exclusion is the conjunction of its literals
-/

namespace PgAuthz.OpenFga

section Lists

variable (rules : List Rule) (term : Bool → RuleBody → Prop)

/-- A rule, or the negation of a negated one, given what a body means where it is added and where it is
subtracted. -/
def Literal (ρ : Rule) : Prop := if ρ.negated then ¬ term false ρ.body else term true ρ.body

/-- A group holds: one of its alternatives does, or it has a base and all of its literals hold. -/
def GroupMeans (g : ℤ) : Prop :=
  (∃ ρ ∈ rules, ρ.groupId = g ∧ ρ.groupOp = .or ∧ Literal term ρ) ∨
    (∃ ρ ∈ rules, ρ.groupId = g ∧ ρ.groupOp ≠ .or ∧ ρ.negated = false) ∧
      ∀ ρ ∈ rules, ρ.groupId = g → Literal term ρ

/-- Some group of the list holds. -/
def SomeGroupMeans : Prop := ∃ g, GroupMeans rules term g

/-- The rules of a group agree on its operator, and only exclusions negate. -/
structure WellGrouped : Prop where
  uniform : ∀ ρ ∈ rules, ∀ ρ' ∈ rules, ρ.groupId = ρ'.groupId → ρ.groupOp = ρ'.groupOp
  added : ∀ ρ ∈ rules, ρ.groupOp ≠ .exclusion → ρ.negated = false

end Lists

variable {rules rules' new : List Rule} {term : Bool → RuleBody → Prop} {ρ : Rule} {g : ℤ}

theorem literal_of_added (h : ρ.negated = false) : Literal term ρ ↔ term true ρ.body := by
  simp [Literal, h]

theorem literal_of_negated (h : ρ.negated = true) : Literal term ρ ↔ ¬ term false ρ.body := by
  simp [Literal, h]

/-! ## The engine's groups -/

/-- What a body means over the questions `X` where it is added, and over `N` under the flipped switch
where it is subtracted. -/
def Terms (env : CheckEnv) (X N : Set Question) (q : Question) : Bool → RuleBody → Prop
  | true => RuleHolds env X q
  | false => RuleHolds env N q.flip

theorem mem_groupRules_iff {env : CheckEnv} {n : Node} :
    ρ ∈ groupRules env n g ↔
      ρ ∈ orderedRules env.rules n.objectType n.relation ∧ ρ.groupId = g := by
  simp [groupRules]

/-- **The engine's group is the group of its rules.** -/
theorem groupHolds_iff {env : CheckEnv} {X N : Set Question} {q : Question}
    (h : WellGrouped (orderedRules env.rules q.node.objectType q.node.relation)) :
    GroupHolds env X N q g ↔
      GroupMeans (orderedRules env.rules q.node.objectType q.node.relation) (Terms env X N q) g := by
  constructor
  · rintro ⟨first, hfirst, hgroup⟩
    obtain ⟨hmem, hid⟩ := mem_groupRules_iff.mp (List.mem_of_mem_head? hfirst)
    have hop : ∀ ρ ∈ groupRules env q.node g, ρ.groupOp = first.groupOp := fun ρ hρ => by
      obtain ⟨hρ, hg⟩ := mem_groupRules_iff.mp hρ
      exact h.uniform ρ hρ first hmem (hg.trans hid.symm)
    cases hcase : first.groupOp with
    | or =>
      rw [hcase] at hgroup
      obtain ⟨ρ, hρ, hholds⟩ := hgroup
      have hor : ρ.groupOp = .or := (hop ρ hρ).trans hcase
      obtain ⟨hρ, hg⟩ := mem_groupRules_iff.mp hρ
      exact .inl ⟨ρ, hρ, hg, hor, (literal_of_added (h.added ρ hρ (by simp [hor]))).mpr hholds⟩
    | and =>
      rw [hcase] at hgroup
      have hadd : first.negated = false := h.added first hmem (by simp [hcase])
      refine .inr ⟨⟨first, hmem, hid, by simp [hcase], hadd⟩, fun ρ hρ hg => ?_⟩
      have hρ' := mem_groupRules_iff.mpr ⟨hρ, hg⟩
      exact (literal_of_added (h.added ρ hρ (by simp [hop ρ hρ', hcase]))).mpr (hgroup ρ hρ')
    | exclusion =>
      rw [hcase] at hgroup
      obtain ⟨⟨base, hbase, hadd⟩, hpos, hneg⟩ := hgroup
      have hex : base.groupOp ≠ .or := by simp [hop base hbase, hcase]
      obtain ⟨hbase, hg⟩ := mem_groupRules_iff.mp hbase
      refine .inr ⟨⟨base, hbase, hg, hex, hadd⟩, fun ρ hρ hg => ?_⟩
      have hρ' := mem_groupRules_iff.mpr ⟨hρ, hg⟩
      cases hn : ρ.negated with
      | false => exact (literal_of_added hn).mpr (hpos ρ hρ' hn)
      | true => exact (literal_of_negated hn).mpr (hneg ρ hρ' hn)
  · intro hmeans
    -- the group has a first rule, and its operator is the one of every rule
    obtain ⟨ρ, hρ, hg⟩ : ∃ ρ ∈ orderedRules env.rules q.node.objectType q.node.relation,
        ρ.groupId = g := by
      rcases hmeans with ⟨ρ, hρ, hg, -⟩ | ⟨⟨ρ, hρ, hg, -⟩, -⟩ <;> exact ⟨ρ, hρ, hg⟩
    have hne : groupRules env q.node g ≠ [] := List.ne_nil_of_mem (mem_groupRules_iff.mpr ⟨hρ, hg⟩)
    refine ⟨_, List.head?_eq_some_head hne, ?_⟩
    obtain ⟨hmem, hid⟩ := mem_groupRules_iff.mp (List.head_mem hne)
    generalize (groupRules env q.node g).head hne = first at hmem hid
    have hop : ∀ ρ ∈ orderedRules env.rules q.node.objectType q.node.relation, ρ.groupId = g →
        ρ.groupOp = first.groupOp := fun ρ hρ hg => h.uniform ρ hρ first hmem (hg.trans hid.symm)
    rcases hmeans with ⟨ρ, hρ, hg, hor, hlit⟩ | ⟨⟨base, hbase, hg, hnor, hadd⟩, hall⟩
    · rw [← hop ρ hρ hg, hor]
      exact ⟨ρ, mem_groupRules_iff.mpr ⟨hρ, hg⟩,
        (literal_of_added (h.added ρ hρ (by simp [hor]))).mp hlit⟩
    · have hlit : ∀ ρ ∈ groupRules env q.node g, Literal (Terms env X N q) ρ := fun ρ hρ =>
        hall ρ (mem_groupRules_iff.mp hρ).1 (mem_groupRules_iff.mp hρ).2
      cases hcase : first.groupOp with
      | or => exact absurd ((hop base hbase hg).trans hcase) hnor
      | and =>
        intro ρ hρ
        have hadd : ρ.negated = false := by
          obtain ⟨hmem, hg⟩ := mem_groupRules_iff.mp hρ
          exact h.added ρ hmem (by simp [hop ρ hmem hg, hcase])
        exact (literal_of_added hadd).mp (hlit ρ hρ)
      | exclusion =>
        exact ⟨⟨base, mem_groupRules_iff.mpr ⟨hbase, hg⟩, hadd⟩,
          fun ρ hρ hn => (literal_of_added hn).mp (hlit ρ hρ),
          fun ρ hρ hn => (literal_of_negated hn).mp (hlit ρ hρ)⟩

/-! ## Lists put together -/

/-- A group depends only on its own rules. -/
theorem groupMeans_congr (h : ∀ ρ, ρ.groupId = g → (ρ ∈ rules ↔ ρ ∈ rules')) :
    GroupMeans rules term g ↔ GroupMeans rules' term g := by
  have hex : ∀ p : Rule → Prop, (∃ ρ ∈ rules, ρ.groupId = g ∧ p ρ) ↔
      ∃ ρ ∈ rules', ρ.groupId = g ∧ p ρ := fun p => exists_congr fun ρ => by
    constructor
    · exact fun ⟨hρ, hg, hp⟩ => ⟨(h ρ hg).mp hρ, hg, hp⟩
    · exact fun ⟨hρ, hg, hp⟩ => ⟨(h ρ hg).mpr hρ, hg, hp⟩
  refine or_congr (hex _) (and_congr (hex _) (forall_congr' fun ρ => ?_))
  exact ⟨fun hall hρ hg => hall ((h ρ hg).mpr hρ) hg, fun hall hρ hg => hall ((h ρ hg).mp hρ) hg⟩

theorem someGroupMeans_congr (h : ∀ ρ, ρ ∈ rules ↔ ρ ∈ rules') :
    SomeGroupMeans rules term ↔ SomeGroupMeans rules' term :=
  exists_congr fun _ => groupMeans_congr fun ρ _ => h ρ

theorem not_someGroupMeans_nil : ¬ SomeGroupMeans [] term := by
  rintro ⟨g, ⟨ρ, hρ, -⟩ | ⟨⟨ρ, hρ, -⟩, -⟩⟩ <;> exact absurd hρ List.not_mem_nil

/-- A group that holds has a rule. -/
theorem GroupMeans.exists_rule (h : GroupMeans rules term g) : ∃ ρ ∈ rules, ρ.groupId = g := by
  rcases h with ⟨ρ, hρ, hg, -⟩ | ⟨⟨ρ, hρ, hg, -⟩, -⟩ <;> exact ⟨ρ, hρ, hg⟩

/-- **Lists of different groups are alternatives.** -/
theorem someGroupMeans_append (h : ∀ ρ ∈ rules, ∀ ρ' ∈ new, ρ.groupId ≠ ρ'.groupId) :
    SomeGroupMeans (rules ++ new) term ↔ SomeGroupMeans rules term ∨ SomeGroupMeans new term := by
  have hleft : ∀ ρ ∈ rules, (GroupMeans (rules ++ new) term ρ.groupId ↔
      GroupMeans rules term ρ.groupId) := fun ρ hρ => groupMeans_congr fun ρ' hg => by
    rw [List.mem_append]
    exact or_iff_left fun hnew => h ρ hρ ρ' hnew hg.symm
  have hright : ∀ ρ ∈ new, (GroupMeans (rules ++ new) term ρ.groupId ↔
      GroupMeans new term ρ.groupId) := fun ρ hρ => groupMeans_congr fun ρ' hg => by
    rw [List.mem_append]
    exact or_iff_right fun hold => h ρ' hold ρ hρ hg
  constructor
  · rintro ⟨g, hg⟩
    obtain ⟨ρ, hρ, rfl⟩ := hg.exists_rule
    rcases List.mem_append.mp hρ with hρ | hρ
    · exact .inl ⟨_, (hleft ρ hρ).mp hg⟩
    · exact .inr ⟨_, (hright ρ hρ).mp hg⟩
  · rintro (⟨g, hg⟩ | ⟨g, hg⟩) <;> obtain ⟨ρ, hρ, rfl⟩ := hg.exists_rule
    · exact ⟨_, (hleft ρ hρ).mpr hg⟩
    · exact ⟨_, (hright ρ hρ).mpr hg⟩

/-- **A rule added to a disjunction is an alternative.** -/
theorem someGroupMeans_concat (hop : ρ.groupOp = .or)
    (h : ∀ ρ' ∈ rules, ρ'.groupId = ρ.groupId → ρ'.groupOp = .or) :
    SomeGroupMeans (rules ++ [ρ]) term ↔ SomeGroupMeans rules term ∨ Literal term ρ := by
  have hother : ∀ {g}, g ≠ ρ.groupId →
      (GroupMeans (rules ++ [ρ]) term g ↔ GroupMeans rules term g) := fun hg =>
    groupMeans_congr fun ρ' hg' => by
      rw [List.mem_append, List.mem_singleton]
      exact or_iff_left fun heq => hg (by rw [← hg', heq])
  constructor
  · rintro ⟨g, hg⟩
    by_cases hid : g = ρ.groupId
    · subst hid
      rcases hg with ⟨ρ', hρ', hg', hor, hlit⟩ | ⟨⟨ρ', hρ', hg', hnor, -⟩, -⟩
      · rcases List.mem_append.mp hρ' with hρ' | hρ'
        · exact .inl ⟨_, .inl ⟨ρ', hρ', hg', hor, hlit⟩⟩
        · obtain rfl := List.mem_singleton.mp hρ'
          exact .inr hlit
      · -- every rule of the group is an alternative
        rcases List.mem_append.mp hρ' with hρ' | hρ'
        · exact absurd (h ρ' hρ' hg') hnor
        · obtain rfl := List.mem_singleton.mp hρ'
          exact absurd hop hnor
    · exact .inl ⟨g, (hother hid).mp hg⟩
  · rintro (⟨g, hg⟩ | hlit)
    · by_cases hid : g = ρ.groupId
      · subst hid
        rcases hg with ⟨ρ', hρ', hg'⟩ | ⟨⟨ρ', hρ', hg', hnor, -⟩, -⟩
        · exact ⟨_, .inl ⟨ρ', List.mem_append_left _ hρ', hg'⟩⟩
        · exact absurd (h ρ' hρ' hg') hnor
      · exact ⟨g, (hother hid).mpr hg⟩
    · exact ⟨_, .inl ⟨ρ, List.mem_append_right _ (List.mem_singleton_self ρ), rfl, hop, hlit⟩⟩

/-- **A conjunction or an exclusion is the conjunction of its literals**, if it has a base. -/
theorem someGroupMeans_block {op : GroupOp} (hop : op ≠ .or)
    (h : ∀ ρ ∈ new, ρ.groupId = g ∧ ρ.groupOp = op) :
    SomeGroupMeans new term ↔
      (∃ ρ ∈ new, ρ.negated = false) ∧ ∀ ρ ∈ new, Literal term ρ := by
  constructor
  · rintro ⟨g', ⟨ρ, hρ, -, hor, -⟩ | ⟨⟨ρ, hρ, hg', -, hadd⟩, hall⟩⟩
    · exact absurd ((h ρ hρ).2.symm.trans hor) hop
    · exact ⟨⟨ρ, hρ, hadd⟩, fun ρ' hρ' => hall ρ' hρ' (by rw [(h ρ' hρ').1, ← hg', (h ρ hρ).1])⟩
  · rintro ⟨⟨ρ, hρ, hadd⟩, hall⟩
    exact ⟨g, .inr ⟨⟨ρ, hρ, (h ρ hρ).1, by simp [(h ρ hρ).2, hop], hadd⟩, fun ρ' hρ' _ => hall ρ' hρ'⟩⟩

theorem wellGrouped_nil : WellGrouped [] :=
  ⟨fun _ hρ => absurd hρ List.not_mem_nil, fun _ hρ => absurd hρ List.not_mem_nil⟩

theorem WellGrouped.append (hr : WellGrouped rules) (hn : WellGrouped new)
    (h : ∀ ρ ∈ rules, ∀ ρ' ∈ new, ρ.groupId = ρ'.groupId → ρ.groupOp = ρ'.groupOp) :
    WellGrouped (rules ++ new) where
  uniform ρ hρ ρ' hρ' hg := by
    rcases List.mem_append.mp hρ with hρ | hρ <;> rcases List.mem_append.mp hρ' with hρ' | hρ'
    · exact hr.uniform ρ hρ ρ' hρ' hg
    · exact h ρ hρ ρ' hρ' hg
    · exact (h ρ' hρ' ρ hρ hg.symm).symm
    · exact hn.uniform ρ hρ ρ' hρ' hg
  added ρ hρ hop := by
    rcases List.mem_append.mp hρ with hρ | hρ
    · exact hr.added ρ hρ hop
    · exact hn.added ρ hρ hop

theorem wellGrouped_block {op : GroupOp} (h : ∀ ρ ∈ new, ρ.groupId = g ∧ ρ.groupOp = op)
    (hadd : ∀ ρ ∈ new, op ≠ .exclusion → ρ.negated = false) : WellGrouped new where
  uniform ρ hρ ρ' hρ' _ := by rw [(h ρ hρ).2, (h ρ' hρ').2]
  added ρ hρ hop := hadd ρ hρ (by rw [← (h ρ hρ).2]; exact hop)

theorem WellGrouped.congr (hr : WellGrouped rules) (h : ∀ ρ, ρ ∈ rules' ↔ ρ ∈ rules) :
    WellGrouped rules' where
  uniform ρ hρ ρ' hρ' hg := hr.uniform ρ ((h ρ).mp hρ) ρ' ((h ρ').mp hρ') hg
  added ρ hρ hop := hr.added ρ ((h ρ).mp hρ) hop

end PgAuthz.OpenFga
