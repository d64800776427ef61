import PgAuthz.Engine.MemoTransparency

/-!
# Two checks that differ in their conditions

Two checks on the same rules and tuples, under different outcomes of the conditions. A rule that an
even number of negated rules stand above is read under the switch of the root, and a rule below an
odd number of them under the flipped one. Where the conditions that pass in the one check pass in
the other on the first kind of positions, and the other way round on the second kind, a check that
allows is not denied by the other one. This holds at every path, so it needs no assumption on the
cycles of the model as long as no answer is taken from a memo.

## Main definitions

* `CheckEnv.withConditions`: the same store under other conditions
* `Subtracted`: a rule that is read under the flipped switch
* `Reads`: the tuples whose conditions a rule reads
* `Favours`: the conditions favour the second check

## Main results

* `checkAccess_congr`: a check depends on the conditions through their outcomes on the tuples
* `ruleHolds_favoured`: one rule
* `search_favoured`, `checkAccess_favoured`: the whole check
-/

namespace PgAuthz

open Resolution
open Relation (ReflTransGen)

/-- The same store, subject and contextual tuples under other conditions. -/
def CheckEnv.withConditions (env : CheckEnv) (cond : ConditionEnv) : CheckEnv :=
  { env with toConditionEnv := cond }

/-- The rule is a negated one of an exclusion group: it is read under the flipped switch. -/
def Subtracted (env : CheckEnv) (n : Node) (ρ : Rule) : Prop :=
  ρ.negated = true ∧ ∃ first, (groupRules env n ρ.groupId).head? = some first ∧
    first.groupOp = .exclusion

/-- The question that a rule of `q` is read as. -/
def ReadAs (env : CheckEnv) (q : Question) (ρ : Rule) (r : Question) : Prop :=
  (Subtracted env q.node ρ ∧ r = q.flip) ∨ (¬ Subtracted env q.node ρ ∧ r = q)

/-- The tuples whose conditions a rule may read at a node: the grants of the subject and the usersets
of a direct rule, the links of a tuple-to-userset rule. -/
def Reads (env : CheckEnv) (n : Node) (t : Tuple) : RuleBody → Prop
  | .direct => t.objectType = n.objectType ∧ t.relation = n.relation ∧
      (t.objectId = n.objectId ∨ t.objectId = wildcard) ∧
      (t.userRelation = none → t.userType = env.userType ∧
        (t.userId = env.userId ∨ t.userId = wildcard))
  | .computed _ => False
  | .ttu tuplesetRelation _ => t.objectType = n.objectType ∧ t.objectId = n.objectId ∧
      t.relation = tuplesetRelation

/-- The condition of a tuple under `cond` passes while the switch is `assume`. -/
def PassesUnder (cond : ConditionEnv) (assume : Bool) (t : Tuple) : Prop :=
  evalCondition cond assume t.conditionId t.conditionContext = .ok true

/-- **The conditions `cond'` favour the check over `cond`**: at every question that the check can
reach, a condition read under the switch off passes under `cond'` if it does under `cond`, and one
read under the switch on passes under `cond` if it does under `cond'`. -/
def Favours (env : CheckEnv) (root : Question) (cond cond' : ConditionEnv) : Prop :=
  ∀ q, ReflTransGen (MayDependOn env) root q →
    ∀ ρ ∈ orderedRules env.rules q.node.objectType q.node.relation, ∀ r, ReadAs env q ρ r →
      ∀ t ∈ env.tuples, Reads env q.node t ρ.body →
        (r.assume = false → PassesUnder cond false t → PassesUnder cond' false t) ∧
        (r.assume = true → PassesUnder cond' true t → PassesUnder cond true t)

/-! ## Equal outcomes -/

variable {env : CheckEnv} {cond cond' : ConditionEnv}

section Congr

variable (h : ∀ t ∈ env.tuples, ∀ a, evalCondition cond a t.conditionId t.conditionContext =
  evalCondition cond' a t.conditionId t.conditionContext)

include h

theorem probe_congr_conditions (a : Bool) (row : Tuple → Bool) :
    probe (env.withConditions cond) a row = probe (env.withConditions cond') a row := by
  unfold probe
  refine congrArg _ (Walk.any_congr fun t ht => ?_)
  exact congrArg Walk.lift (h t (List.mem_of_mem_filter ht) a)

theorem followRows_congr (a : Bool) {rows : List Tuple} (hrows : rows ⊆ env.tuples)
    (target : Tuple → Option Node) :
    followRows (env.withConditions cond) a rows target =
      followRows (env.withConditions cond') a rows target := by
  unfold followRows
  refine Walk.any_congr fun t ht => ?_
  cases target t with
  | none => rfl
  | some n => exact congrArg (Walk.lift · >>= _) (h t (hrows ht) a)

theorem evalDirect_congr (q : Question) :
    evalDirect (env.withConditions cond) q = evalDirect (env.withConditions cond') q := by
  have hprobe := probe_congr_conditions h q.assume
  have hunless : ∀ skip row, probeUnless skip (env.withConditions cond) q.assume row =
      probeUnless skip (env.withConditions cond') q.assume row := by
    intro skip row
    unfold probeUnless
    rw [hprobe row]
  unfold evalDirect
  refine Walk.orElse_congr (hunless _ _) (Walk.orElse_congr (hunless _ _)
    (Walk.orElse_congr (hprobe _) ?_))
  -- the contextual tuples have no conditions
  show (if _ then _ else _) = (if _ then _ else _)
  refine if_congr Iff.rfl rfl (Walk.orElse_congr ?_ (Walk.orElse_congr ?_ rfl))
  · exact followRows_congr h q.assume (fun _ ht => List.mem_of_mem_filter ht) _
  · exact followRows_congr h q.assume (fun _ ht => List.mem_of_mem_filter ht) _

/-- A rule depends on the conditions through their outcomes on the tuples. -/
theorem evalRule_congr (q : Question) (body : RuleBody) :
    evalRule (env.withConditions cond) q body = evalRule (env.withConditions cond') q body := by
  cases body with
  | direct => exact evalDirect_congr h q
  | computed r => rfl
  | ttu ts c =>
    exact Walk.orElse_congr (followRows_congr h q.assume (List.Subset.refl _) _) rfl

/-- **A check depends on the conditions through their outcomes on the tuples.** -/
theorem checkAccess_congr (maxDepth : ℤ) (mode : MemoMode) (root : Question) :
    checkAccess (env.withConditions cond) maxDepth mode root =
      checkAccess (env.withConditions cond') maxDepth mode root := by
  have hrule : evalRule (env.withConditions cond) = evalRule (env.withConditions cond') :=
    funext fun q => funext fun body => evalRule_congr h q body
  have hbody : checkAccessImpl (env.withConditions cond) =
      checkAccessImpl (env.withConditions cond') := by
    funext q
    unfold checkAccessImpl
    rw [hrule]
    rfl
  unfold checkAccess checkAccessRun
  rw [hbody]

end Congr

/-! ## One rule -/

/-- A rule that holds under one outcome of its conditions holds under another one that passes
wherever the first one does, over questions that hold wherever those of the first one do. -/
theorem ruleHolds_of_passes {X X' : Set Question} {r : Question} {body : RuleBody}
    (hpass : ∀ t ∈ env.tuples, Reads env r.node t body → PassesUnder cond r.assume t →
      PassesUnder cond' r.assume t)
    (hX : ∀ n', Premise env r.node n' body → ⟨n', r.assume⟩ ∈ X → ⟨n', r.assume⟩ ∈ X')
    (h : RuleHolds (env.withConditions cond) X r body) :
    RuleHolds (env.withConditions cond') X' r body := by
  cases body with
  | direct =>
    rcases h with ⟨t, ht, hrel, htype, hobj, hut, huid, hur, hp⟩ | h | ⟨n', hn, hX'⟩
    · refine .inl ⟨t, ht, hrel, htype, hobj, hut, huid, hur, hpass t ht ?_ hp⟩
      exact ⟨htype, hrel, hobj.imp_left And.left, fun _ => ⟨hut, huid⟩⟩
    · exact .inr (.inl h)
    · refine .inr (.inr ⟨n', ?_, hX n' hn.premise hX'⟩)
      rcases hn with ⟨t, ht, hn, hp⟩ | hctx
      · refine .inl ⟨t, ht, hn, hpass t ht ?_ hp⟩
        unfold usersetNode at hn
        split at hn
        · rename_i hmatch
          obtain ⟨htype, hobj, hrel⟩ := hmatch
          refine ⟨htype, hrel, by simpa using hobj, fun hnone => ?_⟩
          rw [hnone] at hn
          cases hn
        · cases hn
      · exact .inr hctx
  | computed r' => exact hX _ rfl h
  | ttu ts c =>
    obtain ⟨n', hn, hX'⟩ := h
    refine ⟨n', ?_, hX n' hn.premise hX'⟩
    rcases hn with ⟨t, ht, hn, hp⟩ | hctx
    · refine .inl ⟨t, ht, hn, hpass t ht ?_ hp⟩
      unfold linkNode at hn
      split at hn
      · rename_i hmatch
        exact ⟨hmatch.1, hmatch.2.1, hmatch.2.2.1⟩
      · cases hn
    · exact .inr hctx

/-- The questions of the two checks: what is decided true or open in the favoured direction. -/
structure Favoured (Y Y' : Set Question) (C : Question → Prop) : Prop where
  off : ∀ r, C r → r.assume = false → r ∈ Y → r ∈ Y'
  on : ∀ r, C r → r.assume = true → r ∈ Y' → r ∈ Y

/-- **A rule under conditions that favour the second check**, read under the switch off or on. -/
theorem ruleHolds_favoured {root q r : Question} (hf : Favours env root cond cond')
    (hq : ReflTransGen (MayDependOn env) root q) {ρ : Rule}
    (hρ : ρ ∈ orderedRules env.rules q.node.objectType q.node.relation) (hr : ReadAs env q ρ r)
    {Y Y' : Set Question} (hY : Favoured Y Y' (ReflTransGen (MayDependOn env) root)) :
    (r.assume = false → RuleHolds (env.withConditions cond) Y r ρ.body →
      RuleHolds (env.withConditions cond') Y' r ρ.body) ∧
    (r.assume = true → RuleHolds (env.withConditions cond') Y' r ρ.body →
      RuleHolds (env.withConditions cond) Y r ρ.body) := by
  have hnode : r.node = q.node := by
    rcases hr with ⟨-, rfl⟩ | ⟨-, rfl⟩ <;> rfl
  -- the premises of the rule are reached under the switch that it is read under
  have hpremise : ∀ n', Premise env r.node n' ρ.body →
      ReflTransGen (MayDependOn env) root ⟨n', r.assume⟩ := by
    intro n' hn
    rw [hnode] at hn
    refine hq.tail ?_
    rcases hr with ⟨hsub, rfl⟩ | ⟨-, rfl⟩
    · exact .inr ⟨rfl, ρ, hρ, hsub.1, hn⟩
    · exact .inl ⟨rfl, ρ, hρ, hn⟩
  constructor
  · intro hoff h
    refine ruleHolds_of_passes (fun t ht hread hp => ?_) (fun n' hn => ?_) h
    · rw [hoff] at hp ⊢
      exact (hf q hq ρ hρ r hr t ht (hnode ▸ hread)).1 hoff hp
    · exact hY.off _ (hpremise n' hn) hoff
  · intro hon h
    refine ruleHolds_of_passes (fun t ht hread hp => ?_) (fun n' hn => ?_) h
    · rw [hon] at hp ⊢
      exact (hf q hq ρ hρ r hr t ht (hnode ▸ hread)).2 hon hp
    · exact hY.on _ (hpremise n' hn) hon

/-! ## The rules of a relation -/

/-- A group passes with rules that hold wherever those of a passing group do, where the negated rules
of an exclusion group are compared as such. -/
theorem NewGroupPasses.imp {val safe val' safe' : Rule → Prop} {rs : List Rule}
    (hval : ∀ ρ ∈ rs, ¬ (ρ.negated = true ∧ ∃ first, rs.head? = some first ∧
      first.groupOp = .exclusion) → val ρ → val' ρ)
    (hsafe : ∀ ρ ∈ rs, (ρ.negated = true ∧ ∃ first, rs.head? = some first ∧
      first.groupOp = .exclusion) → safe ρ → safe' ρ)
    (h : NewGroupPasses val safe rs) : NewGroupPasses val' safe' rs := by
  obtain ⟨first, hfirst, hpass, h⟩ := h
  refine ⟨first, hfirst, hpass, ?_⟩
  simp only [GroupState.start] at h ⊢
  have hnot : first.groupOp ≠ .exclusion → ∀ ρ : Rule, ¬ (ρ.negated = true ∧
      ∃ first, rs.head? = some first ∧ first.groupOp = .exclusion) := by
    rintro hop ρ ⟨-, first', hfirst', hop'⟩
    rw [hfirst] at hfirst'
    cases hfirst'
    exact hop hop'
  cases hop : first.groupOp with
  | or =>
    rw [hop] at h
    obtain ⟨ρ, hρ, hv⟩ := h
    exact ⟨ρ, hρ, hval ρ hρ (hnot (by simp [hop]) ρ) hv⟩
  | and =>
    rw [hop] at h
    exact ⟨h.1, fun ρ hρ => hval ρ hρ (hnot (by simp [hop]) ρ) (h.2 ρ hρ)⟩
  | exclusion =>
    rw [hop] at h
    refine ⟨h.1, fun ρ hρ => ?_⟩
    have hρ' := h.2 ρ hρ
    by_cases hneg : ρ.negated = true
    · rw [if_pos hneg] at hρ' ⊢
      exact hsafe ρ hρ ⟨hneg, first, hfirst, hop⟩ hρ'
    · rw [if_neg hneg] at hρ' ⊢
      exact hval ρ hρ (fun hsub => hneg hsub.1) hρ'

theorem pairwise_groupId (rules : List Rule) (T r : ℕ) :
    (orderedRules rules T r).Pairwise fun a b => a.groupId ≤ b.groupId := by
  refine (pairwise_orderedRules rules T r).imp fun {a b} hab => ?_
  rcases hab with hlt | ⟨heq, -⟩
  · exact hlt.le
  · exact heq.le

/-- **What a body returns** over a set of questions that agrees with the answers. -/
theorem checkAccessImpl_iff_newGroup {R : Question → Bool → Prop} {b : Bool} {q : Question}
    {Y : Set Question} (hY : ∀ r c, R r c → (c = true ↔ r ∈ Y))
    (hb : (checkAccessImpl env q).Returns R b) :
    b = true ↔ ∃ g, NewGroupPasses (fun ρ => RuleHolds env Y q ρ.body)
      (fun ρ => ¬ RuleHolds env Y q.flip ρ.body) (groupRules env q.node g) := by
  refine evalGroups_init_iff _ _ (fun ρ _ hr => ?_) (fun ρ _ _ hr => ?_) (pairwise_groupId _ _ _) hb
  · exact evalRule_iff (fun n _ hn => hY _ _ hn) hr
  · rw [← evalRule_iff (fun n _ hn => hY _ _ hn) hr]
    cases b <;> simp

/-! ## The whole check -/

/-- The search of a check under the conditions `cond`. -/
def searchUnder (env : CheckEnv) (cond : ConditionEnv) :
    ℕ → List Question → Question → Except (Halt EngineError) Bool :=
  search (fun q => pathKey q.node) (checkAccessImpl (env.withConditions cond))

/-- **A search under conditions that favour the second one.** Below any path and with any numbers of
levels: where both searches end, a question under the switch off that the first one answers true is
answered true by the second one, and a question under the switch on the other way round. -/
theorem search_favoured {root : Question} (hf : Favours env root cond cond') {f f' : ℕ}
    {P : List Question} {q : Question} (hq : ReflTransGen (MayDependOn env) root q) {b b' : Bool}
    (hb : searchUnder env cond f P q = .ok b) (hb' : searchUnder env cond' f' P q = .ok b') :
    (q.assume = false → b = true → b' = true) ∧ (q.assume = true → b' = true → b = true) := by
  induction f generalizing f' P q b b' with
  | zero => cases hb
  | succ f ih =>
    cases f' with
    | zero => cases hb'
    | succ f' =>
      by_cases hs : pathKey q.node ∈ P.map fun q => pathKey q.node
      · -- both searches cut the question
        have hcut : b = false := Except.ok.inj (hb.symm.trans (search_cut hs f))
        have hcut' : b' = false := Except.ok.inj (hb'.symm.trans (search_cut hs f'))
        rw [hcut, hcut']
        exact ⟨fun _ h => h, fun _ h => h⟩
      rw [searchUnder, search_open hs, Walk.eval_ok_iff] at hb hb'
      set R : Question → Bool → Prop := fun r c => searchUnder env cond f (q :: P) r = .ok c with hR
      set R' : Question → Bool → Prop := fun r c => searchUnder env cond' f' (q :: P) r = .ok c
        with hR'
      -- an open question counts as false in the first check and as true in the second one, if it
      -- is asked under the switch off, and the other way round under the switch on
      set Y : Set Question := {r | (r.assume = false → R r true) ∧ (r.assume = true → ¬ R r false)}
      set Y' : Set Question := {r | (r.assume = false → ¬ R' r false) ∧ (r.assume = true → R' r true)}
      have hagree : ∀ r c, R r c → (c = true ↔ r ∈ Y) := by
        intro r c hc
        have huniq : ∀ d, R r d → d = c := fun d hd => Except.ok.inj (hd.symm.trans hc)
        constructor
        · rintro rfl
          exact ⟨fun _ => hc, fun _ hfalse => Bool.false_ne_true (huniq _ hfalse)⟩
        · intro hr
          cases ha : r.assume with
          | false => exact (huniq _ (hr.1 ha)).symm
          | true =>
            cases c with
            | true => rfl
            | false => exact absurd hc (hr.2 ha)
      have hagree' : ∀ r c, R' r c → (c = true ↔ r ∈ Y') := by
        intro r c hc
        have huniq : ∀ d, R' r d → d = c := fun d hd => Except.ok.inj (hd.symm.trans hc)
        constructor
        · rintro rfl
          exact ⟨fun _ hfalse => Bool.false_ne_true (huniq _ hfalse), fun _ => hc⟩
        · intro hr
          cases ha : r.assume with
          | true => exact (huniq _ (hr.2 ha)).symm
          | false =>
            cases c with
            | true => rfl
            | false => exact absurd hc (hr.1 ha)
      have hY : Favoured Y Y' (ReflTransGen (MayDependOn env) root) := by
        constructor
        · intro r hr hoff hmem
          refine ⟨fun _ hfalse => ?_, fun hon => absurd (hoff.symm.trans hon) Bool.false_ne_true⟩
          exact Bool.false_ne_true ((ih hr (hmem.1 hoff) hfalse).1 hoff rfl)
        · intro r hr hon hmem
          refine ⟨fun hoff => absurd (hoff.symm.trans hon) Bool.false_ne_true, fun _ hfalse => ?_⟩
          exact Bool.false_ne_true ((ih hr hfalse (hmem.2 hon)).2 hon rfl)
      have hiff := checkAccessImpl_iff_newGroup hagree hb
      have hiff' := checkAccessImpl_iff_newGroup hagree' hb'
      have hrule : ∀ g, ∀ ρ ∈ groupRules env q.node g, ∀ r, ReadAs env q ρ r → _ := fun g ρ hρ r hr =>
        ruleHolds_favoured hf hq (mem_groupRules hρ) hr hY
      -- the operator of a group is the one that its rules are read under
      have hgroup : ∀ g, ∀ ρ ∈ groupRules env q.node g, (Subtracted env q.node ρ ↔
          ρ.negated = true ∧ ∃ first, (groupRules env q.node g).head? = some first ∧
            first.groupOp = .exclusion) := by
        intro g ρ hρ
        have hid : ρ.groupId = g := by simpa using (List.mem_filter.mp hρ).2
        rw [Subtracted, hid]
      constructor
      · intro hoff htrue
        obtain ⟨g, hg⟩ := hiff.mp htrue
        refine hiff'.mpr ⟨g, hg.imp (fun ρ hρ hsub => ?_) fun ρ hρ hsub hnot h => hnot ?_⟩
        · exact (hrule g ρ hρ q (.inr ⟨mt (hgroup g ρ hρ).mp hsub, rfl⟩)).1 hoff
        · refine (hrule g ρ hρ q.flip (.inl ⟨(hgroup g ρ hρ).mpr hsub, rfl⟩)).2 ?_ h
          simp [Question.flip, hoff]
      · intro hon htrue
        obtain ⟨g, hg⟩ := hiff'.mp htrue
        refine hiff.mpr ⟨g, hg.imp (fun ρ hρ hsub => ?_) fun ρ hρ hsub hnot h => hnot ?_⟩
        · exact (hrule g ρ hρ q (.inr ⟨mt (hgroup g ρ hρ).mp hsub, rfl⟩)).2 hon
        · refine (hrule g ρ hρ q.flip (.inl ⟨(hgroup g ρ hρ).mpr hsub, rfl⟩)).1 ?_ h
          simp [Question.flip, hon]

/-- The memo is off, or no node that the check can reach depends on itself through an odd number of
negated rules: then no answer of a memo changes the decision. -/
def PlainMemo (env : CheckEnv) (root : Question) (mode : MemoMode) : Prop :=
  mode = .off ∨ NoOddCycle env root

theorem PlainMemo.decides {root : Question} {mode : MemoMode} (hm : PlainMemo env root mode)
    {maxDepth : ℤ} {b : Bool} (hb : checkAccess env maxDepth mode root = .ok b) :
    Decides (fun q : Question => pathKey q.node) (checkAccessImpl env) [] root b := by
  rcases hm with rfl | hodd
  · rw [checkAccess_off] at hb
    exact ⟨_, hb⟩
  · exact decides_of_checkAccess (cutsKeepSwitch_of_no_odd_cycle hodd) hb

/-- **A check that allows is not denied under conditions that favour it.** -/
theorem checkAccess_favoured {root : Question} (hroot : root.assume = false)
    (hf : Favours env root cond cond') {maxDepth maxDepth' : ℤ} {mode mode' : MemoMode}
    (hm : PlainMemo env root mode) (hm' : PlainMemo env root mode')
    (h : checkAccess (env.withConditions cond) maxDepth mode root = .ok true) :
    checkAccess (env.withConditions cond') maxDepth' mode' root ≠ .ok false := by
  intro h'
  have hplain : PlainMemo (env.withConditions cond) root mode := hm
  have hplain' : PlainMemo (env.withConditions cond') root mode' := hm'
  obtain ⟨f, hf₁⟩ := hplain.decides h
  obtain ⟨f', hf₂⟩ := hplain'.decides h'
  exact Bool.false_ne_true ((search_favoured hf .refl hf₁ hf₂).1 hroot rfl)

end PgAuthz
