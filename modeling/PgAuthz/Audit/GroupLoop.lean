import PgAuthz.Audit.SnapshotCheck
import PgAuthz.Store.RuleRows

/-!
# One pass over the groups

The loop over the rules of a relation, of the check and of the check against a snapshot, compared
with what the groups of the rules mean. The loop knows the start of a group from a change of
`v_cur_group`, which is `-1` before the first rule, and settles an intersection or an exclusion at
the end of its group only if `v_cur_group >= 0`. `model_add_rule` takes any integer for a group id.

## Main definitions

* `OpMeans`, `GroupMeans`: the reference meaning of an operator and of a group
* `Settles`: the loop starts its first group, and does not leave out the groups that decide

## Main results

* `evalGroups_correct_iff`: the loop gives the right answer exactly when it settles
* `checkAccessImpl_right_iff`, `checkAccessSnapshotImpl_right_iff`: the loops of the two evaluators
* `negative_groups_left_out`: two runs on accepted rules that go wrong
-/

namespace PgAuthz.GroupLoop

open Resolution RuleRows

/-! ## What a group means -/

section Meaning

variable (holds : Rule → Bool) (l : List Rule)

/-- The reference meaning of an operator over the rules of a group, given the result of each rule. -/
def OpMeans (g : ℤ) : GroupOp → Prop
  | .or => ∃ ρ ∈ l, ρ.groupId = g ∧ holds ρ = true
  | .and => ∀ ρ ∈ l, ρ.groupId = g → holds ρ = true
  | .exclusion => (∃ ρ ∈ l, ρ.groupId = g ∧ ρ.negated = false) ∧
      ∀ ρ ∈ l, ρ.groupId = g → holds ρ = !ρ.negated

/-- A group of the list is satisfied under its operator. -/
def GroupMeans (g : ℤ) : Prop := ∃ ρ ∈ l, ρ.groupId = g ∧ OpMeans holds l g ρ.groupOp

/-- The groups that the loop can settle: those with a non-negative id, and the alternatives, which
return at their first rule that holds. -/
def Settled (ρ : Rule) : Prop := 0 ≤ ρ.groupId ∨ ρ.groupOp = .or

/-- The first group does not have the id of the state before the first rule, and where a group that the
loop leaves out is satisfied, so is one that it settles. -/
def Settles : Prop :=
  (∀ ρ ∈ l, ρ.groupId = -1 → ∃ ρ' ∈ l, ρ'.groupId < -1) ∧
    ((∃ ρ ∈ l, ¬ Settled ρ ∧ GroupMeans holds l ρ.groupId) →
      ∃ ρ ∈ l, Settled ρ ∧ GroupMeans holds l ρ.groupId)

end Meaning

instance (holds : Rule → Bool) (l : List Rule) (g : ℤ) (op : GroupOp) :
    Decidable (OpMeans holds l g op) := by
  cases op <;> unfold OpMeans <;> infer_instance

instance (holds : Rule → Bool) (l : List Rule) (g : ℤ) : Decidable (GroupMeans holds l g) :=
  inferInstanceAs (Decidable (∃ ρ ∈ l, _))

/-- The rules of a relation as `model_add_rule` accepts them. -/
structure RulesInOrder (l : List Rule) : Prop where
  uniform : ∀ ρ ∈ l, ∀ ρ' ∈ l, ρ.groupId = ρ'.groupId → ρ.groupOp = ρ'.groupOp
  negated : ∀ ρ ∈ l, ρ.negated = true → ρ.groupOp = .exclusion

theorem rulesInOrder {rows : List Row} (h : InOrder rows) {s T r : ℕ} {l : List Rule}
    (hl : ∀ ρ ∈ l, ρ ∈ rulesOf rows s T r) : RulesInOrder l where
  uniform ρ hρ ρ' hρ' hg := by
    obtain ⟨hρ, hT, hr⟩ := mem_rulesOf_iff.mp (hl ρ hρ)
    obtain ⟨hρ', hT', hr'⟩ := mem_rulesOf_iff.mp (hl ρ' hρ')
    obtain ⟨m, hm, hs, rfl⟩ := mem_storeRules.mp hρ
    obtain ⟨m', hm', hs', rfl⟩ := mem_storeRules.mp hρ'
    refine h.uniform m hm m' hm' ?_
    simp only [Row.group, hs, hs', hT, hT', hr, hr', hg]
  negated ρ hρ hneg := by
    obtain ⟨m, hm, -, rfl⟩ := mem_storeRules.mp (mem_rulesOf_iff.mp (hl ρ hρ)).1
    have hvalid := h.valid m hm
    simp only [validRow, hneg, Bool.not_true, Bool.false_or, Bool.and_eq_true, decide_eq_true_eq] at hvalid
    exact hvalid.1

/-! ## The groups of a sorted list -/

section Sorted

variable {holds : Rule → Bool} {l : List Rule} {b : Bool}

/-- What a rule means for a loop that returns `b`: a negated rule is only read flipped. -/
def Val (holds : Rule → Bool) (b : Bool) (ρ : Rule) : Prop :=
  if ρ.negated then b = true else holds ρ = true

/-- What the negation of a rule means. -/
def Safe (holds : Rule → Bool) (ρ : Rule) : Prop := holds ρ = false

theorem mem_group {g : ℤ} {ρ : Rule} :
    ρ ∈ (l.filter fun ρ => ρ.groupId = g) ↔ ρ ∈ l ∧ ρ.groupId = g := by
  rw [List.mem_filter, decide_eq_true_eq]

/-- The first rule of a group is negated only if all of its rules are. -/
theorem first_negated_le {g : ℤ} (hsorted : l.Pairwise Rule.snapshotOrder) {first ρ : Rule}
    (hfirst : (l.filter fun ρ => ρ.groupId = g).head? = some first) (hρ : ρ ∈ l) (hg : ρ.groupId = g) :
    first.negated ≤ ρ.negated := by
  have hmem := mem_group.mpr ⟨hρ, hg⟩
  have hid := (mem_group.mp (List.mem_of_mem_head? hfirst)).2
  have hs : (l.filter fun ρ => ρ.groupId = g).Pairwise Rule.snapshotOrder := hsorted.filter _
  cases hl : l.filter fun ρ => ρ.groupId = g with
  | nil => simp [hl] at hfirst
  | cons a rest =>
    rw [hl] at hmem hs hfirst
    obtain rfl : a = first := by simpa using hfirst
    rcases List.mem_cons.mp hmem with rfl | hmem
    · exact le_rfl
    · rcases (List.pairwise_cons.mp hs).1 ρ hmem with hlt | ⟨-, hle⟩
      · omega
      · exact hle

/-- **A group that the loop settles passes exactly when it is satisfied**, and no other group passes. -/
theorem newGroupPasses_iff (h : RulesInOrder l) (hsorted : l.Pairwise Rule.snapshotOrder) {g : ℤ} :
    NewGroupPasses (Val holds b) (Safe holds) (l.filter fun ρ => ρ.groupId = g) ↔
      ∃ ρ ∈ l, ρ.groupId = g ∧ Settled ρ ∧ GroupMeans holds l g := by
  have hplain : ∀ ρ ∈ l, ρ.groupOp ≠ .exclusion → ρ.negated = false := fun ρ hρ hop =>
    Bool.eq_false_iff.mpr fun hneg => hop (h.negated ρ hρ hneg)
  have hval : ∀ ρ, ρ.negated = false → (Val holds b ρ ↔ holds ρ = true) := fun ρ hneg => by
    simp [Val, hneg]
  constructor
  · rintro ⟨first, hfirst, hpass, hgroup⟩
    obtain ⟨hmem, hid⟩ := mem_group.mp (List.mem_of_mem_head? hfirst)
    have hsame : ∀ ρ ∈ l, ρ.groupId = g → ρ.groupOp = first.groupOp := fun ρ hρ hg =>
      h.uniform ρ hρ first hmem (hg.trans hid.symm)
    simp only [GroupState.start] at hgroup
    cases hop : first.groupOp with
    | or =>
      simp only [hop] at hgroup
      obtain ⟨ρ, hρ, hholds⟩ := hgroup
      obtain ⟨hρ, hg⟩ := mem_group.mp hρ
      have hneg := hplain ρ hρ (by simp [hsame ρ hρ hg, hop])
      exact ⟨first, hmem, hid, .inr hop, first, hmem, hid, by
        rw [hop]
        exact ⟨ρ, hρ, hg, (hval ρ hneg).mp hholds⟩⟩
    | and =>
      simp only [hop] at hgroup
      refine ⟨first, hmem, hid, .inl hgroup.1, first, hmem, hid, ?_⟩
      rw [hop]
      intro ρ hρ hg
      have hneg := hplain ρ hρ (by simp [hsame ρ hρ hg, hop])
      exact (hval ρ hneg).mp (hgroup.2 ρ (mem_group.mpr ⟨hρ, hg⟩))
    | exclusion =>
      simp only [hop] at hgroup
      have hbase : first.negated = false := by simpa [GroupState.start, hop] using hpass
      refine ⟨first, hmem, hid, .inl hgroup.1, first, hmem, hid, ?_⟩
      rw [hop]
      refine ⟨⟨first, hmem, hid, hbase⟩, fun ρ hρ hg => ?_⟩
      have hterm := hgroup.2 ρ (mem_group.mpr ⟨hρ, hg⟩)
      cases hneg : ρ.negated with
      | true => simpa [hneg, Safe] using hterm
      | false => simpa [hneg, hval ρ hneg] using hterm
  · rintro ⟨ρ₀, hρ₀, hid₀, hsettled, ρ₁, hρ₁, hid₁, hmeans⟩
    -- the group has a first rule, which carries the operator of the group
    have hne : (l.filter fun ρ => ρ.groupId = g) ≠ [] := List.ne_nil_of_mem (mem_group.mpr ⟨hρ₀, hid₀⟩)
    have hfirst := List.head?_eq_some_head hne
    generalize (l.filter fun ρ => ρ.groupId = g).head hne = first at hfirst
    obtain ⟨hmem, hid⟩ := mem_group.mp (List.mem_of_mem_head? hfirst)
    have hsame : ∀ ρ ∈ l, ρ.groupId = g → ρ.groupOp = first.groupOp := fun ρ hρ hg =>
      h.uniform ρ hρ first hmem (hg.trans hid.symm)
    have hcur : first.groupOp ≠ .or → 0 ≤ first.groupId := fun hop => by
      rcases hsettled with h0 | hor
      · rw [hid, ← hid₀]
        exact h0
      · exact absurd ((hsame ρ₀ hρ₀ hid₀).symm.trans hor) hop
    rw [hsame ρ₁ hρ₁ hid₁] at hmeans
    refine ⟨first, hfirst, ?_⟩
    cases hop : first.groupOp with
    | or =>
      rw [hop] at hmeans
      obtain ⟨ρ, hρ, hg, hholds⟩ := hmeans
      have hneg := hplain ρ hρ (by simp [hsame ρ hρ hg, hop])
      refine ⟨by simp [GroupState.start, hop], ?_⟩
      simp only [GroupState.start, hop]
      exact ⟨ρ, mem_group.mpr ⟨hρ, hg⟩, (hval ρ hneg).mpr hholds⟩
    | and =>
      rw [hop] at hmeans
      refine ⟨by simp [GroupState.start, hop], ?_⟩
      simp only [GroupState.start, hop]
      refine ⟨hcur (by simp [hop]), fun ρ hρ => ?_⟩
      obtain ⟨hρ, hg⟩ := mem_group.mp hρ
      have hneg := hplain ρ hρ (by simp [hsame ρ hρ hg, hop])
      exact (hval ρ hneg).mpr (hmeans ρ hρ hg)
    | exclusion =>
      rw [hop] at hmeans
      obtain ⟨⟨base, hbase, hbg, hadd⟩, hall⟩ := hmeans
      have hplain₁ : first.negated = false := by
        have hle := first_negated_le hsorted hfirst hbase hbg
        rw [hadd] at hle
        exact le_bot_iff.mp hle
      refine ⟨by simp [GroupState.start, hop, hplain₁], ?_⟩
      simp only [GroupState.start, hop]
      refine ⟨hcur (by simp [hop]), fun ρ hρ => ?_⟩
      obtain ⟨hρ, hg⟩ := mem_group.mp hρ
      have hterm := hall ρ hρ hg
      cases hneg : ρ.negated with
      | true => simpa [hneg, Safe] using hterm
      | false => simpa [hneg, hval ρ hneg] using hterm

end Sorted

/-! ## The loop -/

section Loop

variable {holds : Rule → Bool} {l : List Rule} {eval : Question → RuleBody → Eval Bool} {q : Question}

/-- The result of each rule is given: the body of a negated rule is evaluated under the flipped
switch. -/
def Given (eval : Question → RuleBody → Eval Bool) (q : Question) (holds : Rule → Bool) (l : List Rule) :
    Prop :=
  ∀ ρ ∈ l, eval (if ρ.negated then q.flip else q) ρ.body = .done (holds ρ)

/-- **Inside a group the loop returns**: no rule is met under the operator of the initial state. -/
theorem evalGroups_returns (h : RulesInOrder l) (hgiven : Given eval q holds l) {st : GroupState}
    (hst : st.curGroupOp ≠ none)
    (hcur : ∀ ρ ∈ l, ρ.groupId = st.curGroup → st.curGroupOp = some ρ.groupOp) :
    ∃ b, evalGroups eval q st l = .done b := by
  induction l generalizing st with
  | nil => exact ⟨st.finalizes, rfl⟩
  | cons ρ l ih =>
    have h' : RulesInOrder l :=
      ⟨fun a ha a' ha' => h.uniform a (.tail _ ha) a' (.tail _ ha'), fun a ha => h.negated a (.tail _ ha)⟩
    have hgiven' : Given eval q holds l := fun a ha => hgiven a (.tail _ ha)
    -- the rest of the loop, in the group of this rule
    have hrest : ∀ st' : GroupState, st'.curGroupOp = some ρ.groupOp → st'.curGroup = ρ.groupId →
        ∃ b, evalGroups eval q st' l = .done b := by
      intro st' hop hid
      refine ih h' hgiven' (by simp [hop]) fun a ha hg => ?_
      rw [hop, h.uniform a (.tail _ ha) ρ List.mem_cons_self (hg.trans hid)]
    have hstart : (if ρ.groupId ≠ st.curGroup then GroupState.start ρ else st).curGroupOp =
        some ρ.groupOp := by
      split
      · rfl
      · rename_i hg
        exact hcur ρ List.mem_cons_self (not_not.mp hg)
    have hid : (if ρ.groupId ≠ st.curGroup then GroupState.start ρ else st).curGroup = ρ.groupId := by
      split
      · rfl
      · rename_i hg
        exact (not_not.mp hg).symm
    have hrule := hgiven ρ List.mem_cons_self
    rw [evalGroups]
    split
    · exact ⟨true, rfl⟩
    · dsimp only
      generalize (if ρ.groupId ≠ st.curGroup then GroupState.start ρ else st) = st' at hstart hid
      have hfail : st'.fail.curGroupOp = some ρ.groupOp ∧ st'.fail.curGroup = ρ.groupId := ⟨hstart, hid⟩
      have heither : ∀ c : Bool, ∃ b, evalGroups eval q (if c = true then st' else st'.fail) l = .done b := by
        intro c
        cases c with
        | true => exact hrest st' hstart hid
        | false => exact hrest st'.fail hfail.1 hfail.2
      split
      · exact hrest st' hstart hid
      · rw [hstart]
        cases hop : ρ.groupOp with
        | or =>
          have hneg : ρ.negated = false := Bool.eq_false_iff.mpr fun hneg => by
            simp [h.negated ρ List.mem_cons_self hneg] at hop
          simp only [hneg, Bool.false_eq_true, if_false] at hrule
          simp only [hrule, Walk.bind_done]
          cases holds ρ with
          | true => exact ⟨true, rfl⟩
          | false => exact hrest st' hstart hid
        | and =>
          have hneg : ρ.negated = false := Bool.eq_false_iff.mpr fun hneg => by
            simp [h.negated ρ List.mem_cons_self hneg] at hop
          simp only [hneg, Bool.false_eq_true, if_false] at hrule
          simp only [hrule, Walk.bind_done]
          exact heither (holds ρ)
        | exclusion =>
          cases hneg : ρ.negated with
          | true =>
            simp only [hneg, if_true] at hrule
            simp only [if_true, show ({ q with assume := !q.assume } : Question) = q.flip from rfl, hrule,
              Walk.bind_done]
            have hhit := heither (!holds ρ)
            cases hc : holds ρ with
            | true => simpa [hc] using hhit
            | false => simpa [hc] using hhit
          | false =>
            simp only [hneg, Bool.false_eq_true, if_false] at hrule
            simp only [Bool.false_eq_true, if_false, hrule, Walk.bind_done]
            exact heither (holds ρ)

/-- The lowest group of a sorted list is the group of its first rule. -/
theorem lowest_group {ρ : Rule} (hsorted : (ρ :: l).Pairwise Rule.snapshotOrder) :
    ∀ ρ' ∈ ρ :: l, ρ.groupId ≤ ρ'.groupId := by
  intro ρ' hρ'
  rcases List.mem_cons.mp hρ' with rfl | hρ'
  · exact le_rfl
  · exact ((List.pairwise_cons.mp hsorted).1 ρ' hρ').groupId_le

/-- **The loop returns unless its first group has the id of the initial state.** -/
theorem evalGroups_init_returns_iff (h : RulesInOrder l) (hsorted : l.Pairwise Rule.snapshotOrder)
    (hgiven : Given eval q holds l) :
    (∃ b, evalGroups eval q .init l = .done b) ↔
      ∀ ρ ∈ l, ρ.groupId = -1 → ∃ ρ' ∈ l, ρ'.groupId < -1 := by
  cases l with
  | nil => simp [evalGroups]
  | cons ρ l =>
    have hlow := lowest_group hsorted
    by_cases hρ : ρ.groupId = -1
    · refine iff_of_false ?_ fun hall => ?_
      · rintro ⟨b, hb⟩
        rw [evalGroups] at hb
        simp [hρ, GroupState.init] at hb
      · obtain ⟨ρ', hρ', hlt⟩ := hall ρ List.mem_cons_self hρ
        have := hlow ρ' hρ'
        omega
    · refine iff_of_true ?_ fun ρ' hρ' hid => ⟨ρ, List.mem_cons_self, ?_⟩
      · rw [evalGroups_boundary hρ rfl]
        refine evalGroups_returns h hgiven (by simp [GroupState.start]) fun ρ' hρ' hg => ?_
        simp only [GroupState.start] at hg ⊢
        rw [h.uniform ρ' hρ' ρ List.mem_cons_self hg]
      · have := hlow ρ' hρ'
        omega

/-- **What the loop returns** is whether a group that it settles is satisfied. -/
theorem evalGroups_init_eq_done (h : RulesInOrder l) (hsorted : l.Pairwise Rule.snapshotOrder)
    (hgiven : Given eval q holds l) {b : Bool} (hb : evalGroups eval q .init l = .done b) :
    b = true ↔ ∃ ρ ∈ l, Settled ρ ∧ GroupMeans holds l ρ.groupId := by
  have hreturns : ∀ {w : Eval Bool} {c : Bool}, w = .done c → w.Returns (fun _ _ => True) c := by
    rintro w c rfl
    exact .done c
  have hdone : ∀ {c d : Bool}, (Walk.done c : Eval Bool).Returns (fun _ _ => True) d → d = c :=
    fun hd => Walk.returns_done hd
  rw [evalGroups_init_iff (Val holds b) (Safe holds) (fun ρ hρ hr => ?_) (fun ρ hρ hneg hr => ?_)
    (hsorted.imp fun hab => hab.groupId_le) (hreturns hb)]
  · constructor
    · rintro ⟨g, hg⟩
      obtain ⟨ρ, hρ, rfl, hsettled, hmeans⟩ := (newGroupPasses_iff h hsorted).mp hg
      exact ⟨ρ, hρ, hsettled, hmeans⟩
    · rintro ⟨ρ, hρ, hsettled, hmeans⟩
      exact ⟨ρ.groupId, (newGroupPasses_iff h hsorted).mpr ⟨ρ, hρ, rfl, hsettled, hmeans⟩⟩
  · cases hneg : ρ.negated with
    | true => simp [Val, hneg]
    | false =>
      have hrule := hgiven ρ hρ
      simp only [hneg, Bool.false_eq_true, if_false] at hrule
      rw [hrule] at hr
      simp [Val, hneg, hdone hr]
  · have hrule := hgiven ρ hρ
    simp only [hneg, if_true] at hrule
    rw [hrule] at hr
    have hc := hdone hr
    cases b <;> simp_all [Safe]

/-- **The loop gives the right answer exactly when it settles**, for rules in order. -/
theorem groupLoop_right_iff (h : RulesInOrder l) (hsorted : l.Pairwise Rule.snapshotOrder)
    (hgiven : Given eval q holds l) :
    (∃ b, evalGroups eval q .init l = .done b ∧ (b = true ↔ ∃ g, GroupMeans holds l g)) ↔
      Settles holds l := by
  have hgroups : (∃ g, GroupMeans holds l g) ↔ ∃ ρ ∈ l, GroupMeans holds l ρ.groupId := by
    constructor
    · rintro ⟨g, ρ, hρ, rfl, hmeans⟩
      exact ⟨ρ, hρ, ρ, hρ, rfl, hmeans⟩
    · rintro ⟨ρ, -, hmeans⟩
      exact ⟨ρ.groupId, hmeans⟩
  rw [Settles, ← evalGroups_init_returns_iff h hsorted hgiven, hgroups]
  constructor
  · rintro ⟨b, hb, hright⟩
    refine ⟨⟨b, hb⟩, fun ⟨ρ, hρ, _, hmeans⟩ => ?_⟩
    exact (evalGroups_init_eq_done h hsorted hgiven hb).mp (hright.mpr ⟨ρ, hρ, hmeans⟩)
  · rintro ⟨⟨b, hb⟩, hleft⟩
    refine ⟨b, hb, ?_⟩
    rw [evalGroups_init_eq_done h hsorted hgiven hb]
    constructor
    · rintro ⟨ρ, hρ, -, hmeans⟩
      exact ⟨ρ, hρ, hmeans⟩
    · rintro ⟨ρ, hρ, hmeans⟩
      by_cases hsettled : Settled ρ
      · exact ⟨ρ, hρ, hsettled, hmeans⟩
      · exact hleft ⟨ρ, hρ, hsettled, hmeans⟩

/-- **The loop gives the right answer exactly when it settles**, for the rules that `model_add_rule` has
accepted for a relation, in any order that sorts them by group and base rules first. -/
theorem evalGroups_correct_iff {rows : List Row} (hrows : Accepted rows) {s T r : ℕ}
    (hl : l.Perm (rulesOf rows s T r)) (hsorted : l.Pairwise Rule.snapshotOrder)
    (hgiven : Given eval q holds l) :
    (∃ b, evalGroups eval q .init l = .done b ∧ (b = true ↔ ∃ g, GroupMeans holds l g)) ↔
      Settles holds l :=
  groupLoop_right_iff (rulesInOrder hrows.inOrder fun _ hρ => hl.mem_iff.mp hρ) hsorted hgiven

/-! ## The two loops -/

/-- The loop of the check, in its order. -/
theorem checkAccessImpl_right_iff {env : CheckEnv} {rows : List Row} (hrows : Accepted rows) {s : ℕ}
    (henv : env.rules = storeRules rows s)
    (hgiven : Given (evalRule env) q holds
      (orderedRules env.rules q.node.objectType q.node.relation)) :
    (∃ b, checkAccessImpl env q = .done b ∧
        (b = true ↔ ∃ g, GroupMeans holds (orderedRules env.rules q.node.objectType q.node.relation) g)) ↔
      Settles holds (orderedRules env.rules q.node.objectType q.node.relation) := by
  have hmem : ∀ ρ ∈ orderedRules env.rules q.node.objectType q.node.relation,
      ρ ∈ rulesOf rows s q.node.objectType q.node.relation := fun ρ hρ => by
    rw [mem_orderedRules, henv] at hρ
    exact mem_rulesOf_iff.mpr hρ
  exact groupLoop_right_iff (rulesInOrder hrows.inOrder hmem)
    ((pairwise_orderedRules _ _ _).imp Rule.order.snapshotOrder) hgiven

/-- The loop of the check against a snapshot, in its order. -/
theorem checkAccessSnapshotImpl_right_iff {env : SnapshotEnv} {rows : List Row} (hrows : Accepted rows)
    {s : ℕ} (henv : env.rules = storeRules rows s)
    (hgiven : Given (evalRuleSnapshot env) q holds
      (orderedSnapshotRules env.rules q.node.objectType q.node.relation)) :
    (∃ b, checkAccessSnapshotImpl env q = .done b ∧ (b = true ↔
        ∃ g, GroupMeans holds (orderedSnapshotRules env.rules q.node.objectType q.node.relation) g)) ↔
      Settles holds (orderedSnapshotRules env.rules q.node.objectType q.node.relation) := by
  have hmem : ∀ ρ ∈ orderedSnapshotRules env.rules q.node.objectType q.node.relation,
      ρ ∈ rulesOf rows s q.node.objectType q.node.relation := fun ρ hρ => by
    rw [mem_orderedSnapshotRules, henv] at hρ
    exact mem_rulesOf_iff.mpr hρ
  exact groupLoop_right_iff (rulesInOrder hrows.inOrder hmem) (pairwise_orderedSnapshotRules _ _ _) hgiven

end Loop

/-! ## Runs -/

/-- A question about the first relation of an object of the first type. -/
def someQuestion : Question := ⟨⟨1, 1, "a"⟩, false⟩

/-- An exclusion group: the direct subjects without those of another relation. -/
def exclusionRows : List Row :=
  [⟨1, 1, ⟨1, 1, .direct, 1, .exclusion, false⟩, false⟩,
    ⟨2, 1, ⟨1, 1, .computed 2, 1, .exclusion, true⟩, false⟩]

theorem evalGroups_correct_iff_exclusion :
    (∃ b, evalGroups (fun _ body => .done (body = .direct)) someQuestion .init (rulesOf exclusionRows 1 1 1) =
        .done b ∧ (b = true ↔ ∃ g, GroupMeans (fun ρ => ρ.body = .direct) (rulesOf exclusionRows 1 1 1) g)) ↔
      Settles (fun ρ => ρ.body = .direct) (rulesOf exclusionRows 1 1 1) :=
  evalGroups_correct_iff ⟨exclusionRows, by decide⟩ (List.Perm.refl (rulesOf exclusionRows 1 1 1)) (by decide)
    (fun ρ _ => by cases ρ.negated <;> rfl)

/-- A conjunction of one rule under a negative group id. -/
def negativeRows : List Row := [⟨1, 1, ⟨1, 1, .direct, -2, .and, false⟩, false⟩]

/-- An alternative under the group id of the state before the first rule. -/
def initialRows : List Row := [⟨1, 1, ⟨1, 1, .direct, -1, .or, false⟩, false⟩]

/-- **Groups with negative ids**: a conjunction whose only rule holds is never settled, and a first group
`-1` is never started. Every rule returns true, and the loop returns false and raises. -/
theorem negative_groups_left_out :
    Accepted negativeRows ∧ GroupMeans (fun _ => true) (rulesOf negativeRows 1 1 1) (-2) ∧
      evalGroups (fun _ _ => .done true) someQuestion .init (rulesOf negativeRows 1 1 1) = .done false ∧
      Accepted initialRows ∧ GroupMeans (fun _ => true) (rulesOf initialRows 1 1 1) (-1) ∧
      evalGroups (fun _ _ => .done true) someQuestion .init (rulesOf initialRows 1 1 1) =
        .raise .caseNotFound :=
  ⟨⟨negativeRows, by decide⟩, by decide, rfl, ⟨initialRows, by decide⟩, by decide, rfl⟩

end PgAuthz.GroupLoop
