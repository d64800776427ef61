import PgAuthz.Engine.Correct

/-!
# When the memo is transparent

The memo keys an answer by its node and its missing-context switch, the cycle test keys the path by
the node alone. A node met again below itself under the other switch is therefore cut, although the
answer to cut there is not the answer open on the path; an answer stored before such a cut replaces
it on another path and can change the decision. Where every cut is at the question that is open on
the path, the three backends decide alike and every stored answer is the answer at every visit.

## Main definitions

* `CutsKeepSwitch env root`: every node cut by the check without a memo is open on the path under
  the same switch
* `flippedCycleEnv`: a model whose decision changes with the memo

## Main results

* `memo_transparent`: with such cuts the backends agree and stored answers hold at every visit
* `cutsKeepSwitch_of_no_odd_cycle`: no node that depends on itself through an odd number of negated
  rules is enough
-/

namespace PgAuthz

open Resolution
open Relation (ReflTransGen)

/-- The check without a memo, from `root`, cuts a node only where the path holds it under the same
switch. -/
def CutsKeepSwitch (env : CheckEnv) (root : Question) : Prop :=
  ProperCuts (fun q => pathKey q.node) (checkAccessImpl env) root

/-- The check without a memo, from `root`, decides `b` for `q` wherever it asks `q`. -/
def DecidedAtVisits (env : CheckEnv) (root q : Question) (b : Bool) : Prop :=
  ∀ P, Visit (fun q => pathKey q.node) (checkAccessImpl env) root P q →
    Decides (fun q => pathKey q.node) (checkAccessImpl env) P q b

variable {env : CheckEnv}

theorem checkAccess_off (env : CheckEnv) (maxDepth : ℤ) (root : Question) :
    checkAccess env maxDepth .off root =
      search (fun q => pathKey q.node) (checkAccessImpl env) (levels maxDepth) [] root :=
  memoSearch_of_unusable (fun _ => rfl) _ _ _ _ _

/-- What a check leaves in its memo, and its result, against the check without a memo. -/
theorem checkAccessRun_matches {root : Question} (hC : CutsKeepSwitch env root) {maxDepth : ℤ}
    (hne : checkAccess env maxDepth .off root ≠ .error .depth) (mode : MemoMode) :
    Matches mode.backend (checkAccessImpl env) (Settles (checkAccessImpl env) root) 0
      (checkAccessRun env maxDepth mode root) (checkAccess env maxDepth .off root) := by
  rw [checkAccess_off] at hne ⊢
  exact memoSearch_matches mode.backend_lawful hC .root hne (trusted_empty mode _)

/-- **The memo is transparent where cuts keep the switch.** If the check without a memo stays
within its depth, then every backend has its result, unless the memo in a session variable is full;
and every answer a backend has stored is the one the check without a memo decides, wherever it asks
that question. -/
theorem memo_transparent {root : Question} (hC : CutsKeepSwitch env root) {maxDepth : ℤ}
    (hne : checkAccess env maxDepth .off root ≠ .error .depth) (mode : MemoMode) :
    (checkAccess env maxDepth mode root = checkAccess env maxDepth .off root ∨
      checkAccess env maxDepth mode root = .error .full ∧ ∃ maxEntries, mode = .guc maxEntries) ∧
    ∀ b m c, checkAccessRun env maxDepth mode root = .ok (b, (m, c)) →
      ∀ q b', mode.backend.lookup m q = some b' → DecidedAtVisits env root q b' := by
  have hmatch := checkAccessRun_matches hC hne mode
  constructor
  · unfold checkAccess at hmatch ⊢
    rcases hrun : checkAccessRun env maxDepth mode root with e | ⟨b, m, c⟩
    · rw [hrun] at hmatch
      cases e with
      | full =>
        refine .inr ⟨rfl, ?_⟩
        rcases memoSearch_error hrun with h | ⟨-, m, r, c, hstore⟩ | ⟨e, r, h, -⟩
        · cases h
        · exact MemoMode.guc_of_store_none hstore
        · cases h
      | depth => exact .inl (Eq.symm hmatch)
      | raised e => exact .inl (Eq.symm hmatch)
    · rw [hrun] at hmatch
      exact .inl hmatch.1.symm
  · intro b m c hrun q b' hq P hv
    rw [hrun] at hmatch
    exact search_eq_of_settles hC hv (hmatch.2.1 q b' hq)

/-- The banned member's model keeps the switch at every cut. -/
theorem memo_transparent_bannedEnv :
    checkAccess bannedEnv 32 .off ⟨⟨3, 1, "doc"⟩, false⟩ ≠ .error .depth ∧
      checkAccess bannedEnv 32 .temp ⟨⟨3, 1, "doc"⟩, false⟩ =
        checkAccess bannedEnv 32 .off ⟨⟨3, 1, "doc"⟩, false⟩ := by
  have hne : checkAccess bannedEnv 32 .off ⟨⟨3, 1, "doc"⟩, false⟩ ≠ .error .depth := by
    decide +kernel
  have hC : CutsKeepSwitch bannedEnv ⟨⟨3, 1, "doc"⟩, false⟩ :=
    properCuts_of_stratified (implements_ruleSystem (by decide))
      (sited_pathKey bannedEnv_stratified) _
  refine ⟨hne, ?_⟩
  rcases (memo_transparent hC hne .temp).1 with h | ⟨-, maxEntries, h⟩
  · exact h
  · cases h

/-! ## A sufficient condition on the model -/

/-- One question asks the other, under the same switch or through a negated rule under the flipped
one. -/
def MayDependOn (env : CheckEnv) (q r : Question) : Prop :=
  (ruleSystem env).pos q r ∨ (ruleSystem env).neg q r

/-- **No node that the check can reach depends on itself through an odd number of negated
rules.** -/
def NoOddCycle (env : CheckEnv) (root : Question) : Prop :=
  ∀ q, ReflTransGen (MayDependOn env) root q → ¬ ReflTransGen (MayDependOn env) q q.flip

theorem Question.eq_or_eq_flip {q r : Question} (h : q.node = r.node) : q = r ∨ q = r.flip := by
  rcases q with ⟨n, a⟩
  rcases r with ⟨m, b⟩
  obtain rfl : n = m := h
  cases a <;> cases b <;> simp [Question.flip]

/-- Without such a cycle, every cut of a search whose bodies ask the premises of the rules is
proper. -/
theorem properCuts_of_no_odd_cycle {body : Question → Eval Bool} {root : Question}
    (hasks : ∀ q r, (body q).MayAsk r → MayDependOn env q r) (hodd : NoOddCycle env root) :
    ProperCuts (fun q : Question => pathKey q.node) body root := by
  -- every question on a path is reached from the root and reaches the questions below it
  have hpath : ∀ P q, Visit (fun q : Question => pathKey q.node) body root P q →
      ReflTransGen (MayDependOn env) root q ∧
        ∀ p ∈ P, ReflTransGen (MayDependOn env) root p ∧ ReflTransGen (MayDependOn env) p q := by
    intro P q hv
    induction hv with
    | root => exact ⟨.refl, by simp⟩
    | step _ _ hq ih =>
      have hstep := hasks _ _ hq.mayAsk
      refine ⟨ih.1.tail hstep, fun p hp => ?_⟩
      rcases List.mem_cons.mp hp with rfl | hp
      · exact ⟨ih.1, .single hstep⟩
      · exact ⟨(ih.2 p hp).1, (ih.2 p hp).2.tail hstep⟩
  intro P q hv hs
  obtain ⟨p, hp, hpq⟩ := List.mem_map.mp hs
  obtain ⟨hroot, hreach⟩ := (hpath P q hv).2 p hp
  rcases Question.eq_or_eq_flip (pathKey_injective hpq).symm with rfl | rfl
  · exact hp
  · exact absurd hreach (hodd p hroot)

theorem cutsKeepSwitch_of_no_odd_cycle {root : Question} (hodd : NoOddCycle env root) :
    CutsKeepSwitch env root :=
  properCuts_of_no_odd_cycle (fun _ _ => checkAccessImpl_asks) hodd

/-! ## A decision that changes with the memo -/

/-- The relation 3 holds through a conditional tuple whose context is missing, or for the base
relation 5 unless the relation 2 holds, which is the relation 3 again. The relation 0 asks it first
below a negated rule and then outside of it. -/
def flippedCycleEnv : CheckEnv where
  platform := ⟨fun _ _ _ _ => .failed, fun _ => 0, fun _ => ""⟩
  maxContextBytes := 262144
  conditions := [⟨1, "$1->>'region' = 'eu'", .sql, ["region"], [], .caller⟩]
  evalClock := 0
  requestContext := none
  rules := [⟨1, 0, .direct, 0, .exclusion, false⟩, ⟨1, 0, .computed 1, 0, .exclusion, true⟩,
    ⟨1, 0, .computed 4, 1, .or, false⟩, ⟨1, 1, .computed 2, 0, .or, false⟩,
    ⟨1, 2, .computed 3, 0, .or, false⟩, ⟨1, 4, .computed 3, 0, .or, false⟩,
    ⟨1, 3, .direct, 0, .or, false⟩, ⟨1, 3, .computed 5, 1, .exclusion, false⟩,
    ⟨1, 3, .computed 2, 1, .exclusion, true⟩, ⟨1, 5, .direct, 0, .or, false⟩]
  tuples := [⟨2, "ann", none, 0, 1, "doc", none, none, none⟩,
    ⟨2, "ann", none, 3, 1, "doc", some 1, none, none⟩,
    ⟨2, "ann", none, 5, 1, "doc", none, none, none⟩]
  ctxTuples := []
  hasCtxTuples := false
  exclude := none
  userType := 2
  userId := "ann"

/-- Without a memo the check allows, with either memo it denies. -/
theorem flippedCycleEnv_memo_changes :
    checkAccess flippedCycleEnv 32 .off ⟨⟨0, 1, "doc"⟩, false⟩ = .ok true ∧
      checkAccess flippedCycleEnv 32 .temp ⟨⟨0, 1, "doc"⟩, false⟩ = .ok false ∧
      checkAccess flippedCycleEnv 32 (.guc 5000) ⟨⟨0, 1, "doc"⟩, false⟩ = .ok false := by
  refine ⟨?_, ?_, ?_⟩ <;> decide +kernel

end PgAuthz
