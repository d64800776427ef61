import PgAuthz.Engine.Answers
import PgAuthz.Engine.Reach

/-!
# The check decides the semantics of the model

The bodies of the check implement the rule system of the store, so by the general results on the
search the check decides the stratified least-fixpoint semantics, whatever its memo.

## Main results

* `implements_ruleSystem`: the bodies of the check implement the rule system
* `decides_of_checkAccess`: with proper cuts, a check returns what the search without a memo returns
* `checkAccess_decides_holds`: a check decides the semantics, or stops with one of its errors
-/

namespace PgAuthz

open Resolution

variable {env : CheckEnv} {b : Bool}

/-- The bodies of the check ask the premises of the rule system. -/
theorem checkAccessImpl_asks {q r : Question} (hr : (checkAccessImpl env q).MayAsk r) :
    (ruleSystem env).pos q r ∨ (ruleSystem env).neg q r := by
  obtain ⟨ρ, hρ, hp, ha | ⟨hneg, ha⟩⟩ := mayAsk_evalGroups (fun _ _ _ => mayAsk_evalRule) hr
  · exact .inl ⟨ha, ρ, hρ, hp⟩
  · exact .inr ⟨ha, ρ, hρ, hneg, hp⟩

/-- **What a body returns is what the groups say** of the questions that agree with the answers on
the side of the result, when group ids are non-negative. -/
theorem checkAccessImpl_iff (hg : ∀ ρ ∈ env.rules, 0 ≤ ρ.groupId) {R : Question → Bool → Prop}
    {q : Question} {X N : Set Question}
    (hX : ∀ n, DependsOnNode env q.node n → R ⟨n, q.assume⟩ b →
      (b = true ↔ ⟨n, q.assume⟩ ∈ X))
    (hN : ∀ n, NegatesNode env q.node n → R ⟨n, !q.assume⟩ (!b) →
      ((!b) = true ↔ ⟨n, !q.assume⟩ ∈ N))
    (hb : (checkAccessImpl env q).Returns R b) : b = true ↔ ∃ g, GroupHolds env X N q g := by
  have hordered : ∀ ρ ∈ orderedRules env.rules q.node.objectType q.node.relation,
      0 ≤ ρ.groupId := fun ρ hρ => hg ρ (mem_orderedRules.mp hρ).1
  -- a group with a first rule has a non-negative id
  have hpos : ∀ {g : ℤ}, (∃ first, (groupRules env q.node g).head? = some first) → 0 ≤ g := by
    rintro g ⟨first, hfirst⟩
    have hmem : first ∈ groupRules env q.node g := List.mem_of_mem_head? hfirst
    have hgroup : first.groupId = g := by simpa using (List.mem_filter.mp hmem).2
    rw [← hgroup]
    exact hordered first (mem_groupRules hmem)
  have hval : ∀ ρ ∈ orderedRules env.rules q.node.objectType q.node.relation,
      (evalRule env q ρ.body).Returns R b → (b = true ↔ RuleHolds env X q ρ.body) :=
    fun ρ hρ hr => evalRule_iff (fun n hn => hX n ⟨ρ, hρ, hn⟩) hr
  have hsafe : ∀ ρ ∈ orderedRules env.rules q.node.objectType q.node.relation,
      ρ.negated = true → (evalRule env q.flip ρ.body).Returns R (!b) →
      (b = true ↔ ¬ RuleHolds env N q.flip ρ.body) := by
    intro ρ hρ hneg hr
    rw [← evalRule_iff (q := q.flip) (fun n hn => hN n ⟨ρ, hρ, hneg, hn⟩) hr]
    cases b <;> simp
  have hsorted : (orderedRules env.rules q.node.objectType q.node.relation).Pairwise
      fun a b => a.groupId ≤ b.groupId := by
    refine (pairwise_orderedRules _ _ _).imp fun {a b} hab => ?_
    rcases hab with hlt | ⟨heq, -⟩
    · exact hlt.le
    · exact heq.le
  rw [evalGroups_init_iff _ _ hval hsafe hsorted hb]
  constructor
  · rintro ⟨g, hp⟩
    exact ⟨g, (groupHolds_iff (hpos (hp.imp fun _ h => h.1))).mpr hp⟩
  · rintro ⟨g, hp⟩
    obtain ⟨first, hfirst, -⟩ := id hp
    exact ⟨g, (groupHolds_iff (hpos ⟨first, hfirst⟩)).mp hp⟩

/-- **The bodies of the check implement the rule system**, when group ids are non-negative. -/
theorem implements_ruleSystem (hg : ∀ ρ ∈ env.rules, 0 ≤ ρ.groupId) :
    Implements (ruleSystem env) (checkAccessImpl env) where
  asks hr := checkAccessImpl_asks hr
  computes hb hX hN := checkAccessImpl_iff hg (fun n hn => hX ⟨n, _⟩ _ ⟨rfl, hn⟩)
    (fun n hn => hN ⟨n, _⟩ _ ⟨rfl, hn⟩) (Walk.eval_ok_iff.mp hb)

theorem trusted_empty (mode : MemoMode) (body : Question → Eval Bool) :
    Trusted mode.backend body mode.empty := by
  intro q b hq
  simp [mode.lookup_empty] at hq

/-- Whatever a search with a memo returns, with proper cuts and bodies that ask the premises of the
rules, the search without a memo returns with enough levels. -/
theorem decides_of_memoSearch {body : Question → Eval Bool} {root : Question}
    (hasks : ∀ q r, (body q).MayAsk r → (ruleSystem env).pos q r ∨ (ruleSystem env).neg q r)
    (hC : ProperCuts (fun q : Question => pathKey q.node) body root) {f : ℕ} {mode : MemoMode}
    (hb : (memoSearch mode.backend (fun q : Question => pathKey q.node) body f 0 [] root
      (mode.empty, 0)).map Prod.fst = .ok b) :
    Decides (fun q : Question => pathKey q.node) body [] root b := by
  rcases hrun : memoSearch mode.backend (fun q : Question => pathKey q.node) body f 0 [] root
    (mode.empty, 0) with e | ⟨b', m', c'⟩
  · simp [hrun, Except.map] at hb
  · obtain rfl : b' = b := by simpa [hrun, Except.map] using hb
    have hclosed : ∀ q r : Question, pathKey q.node ∈ checkKeys env root.node →
        (body q).MayAsk r → pathKey r.node ∈ checkKeys env root.node := by
      intro q r hq hr
      rcases hasks q r hr with h | h
      · exact checkKeys_closed hq h.2
      · exact checkKeys_closed hq (NegatesNode.dependsOnNode env h.2)
    exact (memoSearch_decides mode.backend_lawful hC hclosed
      (mem_checkKeys.mpr (root_mem_checkNodes env root.node)) (trusted_empty mode body) hrun).1

/-- Whatever a check returns, with proper cuts, the search without a memo returns with enough
levels. -/
theorem decides_of_checkAccess {root : Question}
    (hC : ProperCuts (fun q : Question => pathKey q.node) (checkAccessImpl env) root)
    {maxDepth : ℤ} {mode : MemoMode} (hb : checkAccess env maxDepth mode root = .ok b) :
    Decides (fun q : Question => pathKey q.node) (checkAccessImpl env) [] root b :=
  decides_of_memoSearch (fun _ _ => checkAccessImpl_asks) hC hb

/-- The errors of a check: the depth bound, the limit of the memo in a session variable, and the
two errors that condition evaluation passes on. -/
theorem checkAccess_error (hg : ∀ ρ ∈ env.rules, 0 ≤ ρ.groupId) {maxDepth : ℤ} {mode : MemoMode}
    {root : Question} {e : Halt EngineError}
    (he : checkAccess env maxDepth mode root = .error e) :
    e = .depth ∨ (e = .full ∧ ∃ maxEntries, mode = .guc maxEntries) ∨
      e = .raised .queryCanceled ∨ e = .raised .programLimitExceeded := by
  unfold checkAccess at he
  rcases hrun : checkAccessRun env maxDepth mode root with e' | ⟨b', m', c'⟩
  · obtain rfl : e' = e := by simpa [hrun, Except.map] using he
    rcases memoSearch_error hrun with rfl | ⟨rfl, m, r, c, hstore⟩ | ⟨e, r, rfl, hraise⟩
    · exact .inl rfl
    · exact .inr (.inl ⟨rfl, MemoMode.guc_of_store_none hstore⟩)
    · have hnot : RaisesOnlyAborts (checkAccessImpl env r) :=
        raisesOnlyAborts_evalGroups fun _ ρ hρ => by
          have := hg ρ (mem_orderedRules.mp hρ).1
          simp only [GroupState.init]
          omega
      cases e with
      | queryCanceled => exact .inr (.inr (.inl rfl))
      | programLimitExceeded => exact .inr (.inr (.inr rfl))
      | caseNotFound => exact absurd hraise hnot
  · simp [hrun, Except.map] at he

/-- **The check decides the stratified least-fixpoint semantics**: on a stratified model with
non-negative group ids, whatever the tuples, the subject, the context, the switch and the memo, the
check returns whether the question holds, or stops at the depth bound, at the limit of the memo in
a session variable, or with an error that condition evaluation passes on. -/
theorem checkAccess_decides_holds (hs : Stratified env) (hg : ∀ ρ ∈ env.rules, 0 ≤ ρ.groupId)
    (maxDepth : ℤ) (mode : MemoMode) (root : Question) :
    match checkAccess env maxDepth mode root with
    | .ok b => b = true ↔ Holds hs root
    | .error e => e = .depth ∨ (e = .full ∧ ∃ maxEntries, mode = .guc maxEntries) ∨
        e = .raised .queryCanceled ∨ e = .raised .programLimitExceeded := by
  cases hres : checkAccess env maxDepth mode root with
  | error e => exact checkAccess_error hg hres
  | ok b =>
    have himpl := implements_ruleSystem hg
    have hsited := sited_pathKey hs
    exact search_iff_leastModel himpl hsited
      (decides_of_checkAccess (properCuts_of_stratified himpl hsited root) hres)

/-- Members of a group that is a member of itself see a document unless they are banned. -/
def bannedEnv : CheckEnv where
  platform := ⟨fun _ _ _ _ => .failed, fun _ => 0, fun _ => ""⟩
  maxContextBytes := 262144
  conditions := []
  evalClock := 0
  requestContext := none
  rules := [⟨1, 3, .direct, 0, .exclusion, false⟩, ⟨1, 3, .computed 1, 0, .exclusion, true⟩,
    ⟨1, 1, .direct, 0, .or, false⟩, ⟨2, 2, .direct, 0, .or, false⟩]
  tuples := [⟨2, "g", some 2, 3, 1, "doc", none, none, none⟩,
    ⟨2, "g", some 2, 2, 2, "g", none, none, none⟩, ⟨5, "ann", none, 2, 2, "g", none, none, none⟩]
  ctxTuples := []
  hasCtxTuples := false
  exclude := none
  userType := 5
  userId := "ann"

theorem stratified_of_rank (rank : ℕ × ℕ → ℕ)
    (hle : ∀ n n', DependsOnNode env n n' → rank n'.key ≤ rank n.key)
    (hlt : ∀ n n', NegatesNode env n n' → rank n'.key < rank n.key) : Stratified env := by
  have hreach : ∀ k k', Relation.ReflTransGen (DependsOn env) k k' → rank k' ≤ rank k := by
    intro k k' h
    induction h with
    | refl => exact le_rfl
    | tail _ hstep ih =>
      obtain ⟨n, n', rfl, rfl, hdep⟩ := hstep
      exact (hle n n' hdep).trans ih
  intro n n' hneg h
  exact absurd (hreach _ _ h) (Nat.not_le.mpr (hlt n n' hneg))

theorem bannedEnv_userset {n n' : Node} (hn : Premise bannedEnv n n' .direct) :
    n'.relation = 2 ∧ (n.relation = 2 ∨ n.relation = 3) := by
  rcases hn with ⟨t, ht, hn⟩ | ⟨hctx, -⟩
  · unfold usersetNode at hn
    split at hn
    · rename_i hrow
      obtain ⟨r, hr, rfl⟩ := Option.map_eq_some_iff.mp hn
      simp only [bannedEnv, List.mem_cons, List.not_mem_nil, or_false] at ht
      rcases ht with rfl | rfl | rfl
      · exact ⟨(Option.some.inj hr).symm, .inr hrow.2.2.symm⟩
      · exact ⟨(Option.some.inj hr).symm, .inl hrow.2.2.symm⟩
      · cases hr
    · cases hn
  · cases hctx

theorem bannedEnv_stratified : Stratified bannedEnv := by
  refine stratified_of_rank Prod.snd ?_ ?_
  · rintro n n' ⟨ρ, hρ, hp⟩
    obtain ⟨hmem, -, hr⟩ := mem_orderedRules.mp hρ
    simp only [bannedEnv, List.mem_cons, List.not_mem_nil, or_false] at hmem
    rcases hmem with rfl | rfl | rfl | rfl
    · obtain ⟨h, h'⟩ := bannedEnv_userset hp
      simp only [Node.key]
      omega
    · cases hp
      simp only at hr
      simp only [Node.key]
      omega
    · obtain ⟨h, h'⟩ := bannedEnv_userset hp
      simp only at hr
      simp only [Node.key]
      omega
    · obtain ⟨h, h'⟩ := bannedEnv_userset hp
      simp only [Node.key]
      omega
  · rintro n n' ⟨ρ, hρ, hneg, hp⟩
    obtain ⟨hmem, -, hr⟩ := mem_orderedRules.mp hρ
    simp only [bannedEnv, List.mem_cons, List.not_mem_nil, or_false] at hmem
    rcases hmem with rfl | rfl | rfl | rfl
    · cases hneg
    · cases hp
      simp only at hr
      simp only [Node.key]
      omega
    · cases hneg
    · cases hneg

/-- The document is seen through the cyclic group, and the semantics says so. -/
theorem checkAccess_decides_holds_bannedEnv : ∃ hs : Stratified bannedEnv,
    checkAccess bannedEnv 32 .temp ⟨⟨3, 1, "doc"⟩, false⟩ = .ok true ∧
      Holds hs ⟨⟨3, 1, "doc"⟩, false⟩ := by
  have hrun : checkAccess bannedEnv 32 .temp ⟨⟨3, 1, "doc"⟩, false⟩ = .ok true := by
    decide +kernel
  refine ⟨bannedEnv_stratified, hrun, ?_⟩
  have hdec := checkAccess_decides_holds bannedEnv_stratified (by decide) 32 .temp
    ⟨⟨3, 1, "doc"⟩, false⟩
  rw [hrun] at hdec
  exact hdec.mp rfl

end PgAuthz
