import Mathlib.Data.List.ProdSigma
import PgAuthz.Engine.ListObjects

/-!
# Listing the subjects of an object

`_list_subjects` walks the grants of an object backward: from the node asked for it follows computed
relations, usersets and tupleset links to every node the check may ask, and decides the subjects
that the tuples of these nodes name. A subject that none of them names is checked as the wildcard
subject is, so that the wildcard row stands for it.

## Main definitions

* `reachSubjects`: the recursive query of the walk
* `listSubjects`: `_list_subjects`

## Main results

* `checkAccess_eq_wildcard`: a subject that no reached tuple names is checked as the wildcard is
* `named_of_checkAccess`: an allowed subject or the wildcard is named by a reached tuple
* `listSubjects_agrees`: every listed subject is allowed, and every allowed subject is listed or
  covered by the wildcard row
-/

namespace PgAuthz

open Resolution
open Relation (ReflTransGen)

/-! ## The walk -/

/-- The nodes that the tuple `t` of the object of `n` leads to: the userset it grants the relation
to, or a computed relation of the object it links. -/
def askThrough (rules : List Rule) (n : Node) (t : CtxTuple) : List Node :=
  match t.userRelation with
  | some r => if t.relation = n.relation then [⟨r, t.userType, t.userId⟩] else []
  | none => (rules.filter fun ρ => ρ.objectType = n.objectType ∧ ρ.relation = n.relation).filterMap
      fun ρ => match ρ.body with
        | .ttu ts c => if ts = t.relation then some ⟨c, t.userType, t.userId⟩ else none
        | _ => none

/-- The recursive term of the walk. -/
def expandSubjects (env : CheckEnv) (n : Node) : List Node :=
  ((env.rules.filter fun ρ => ρ.objectType = n.objectType ∧ ρ.relation = n.relation).filterMap
    fun ρ => match ρ.body with
      | .computed r => some { n with relation := r }
      | _ => none) ++
  ((walkTuples env).filter fun t => t.objectType = n.objectType ∧
    t.objectId ∈ [n.objectId, wildcard]).flatMap (askThrough env.rules n)

/-- The recursive query of the walk; it ends after at most as many rounds as there are nodes. -/
def reachSubjects (env : CheckEnv) (root : Node) : List Node :=
  recursiveUnion (expandSubjects env)
    ((checkRelations env root).length * (checkObjects env root).length) [root].dedup [root].dedup

/-- The subjects of a type that tuples of the node name, on its object or on the object wildcard. -/
def namedSubjects (env : CheckEnv) (subjectType : ℕ) (n : Node) : List String :=
  ((walkTuples env).filter fun t => t.objectType = n.objectType ∧
    t.objectId ∈ [n.objectId, wildcard] ∧ t.relation = n.relation ∧ t.userType = subjectType ∧
    t.userRelation = none).map CtxTuple.userId

/-- The environment of a decision for another subject. -/
def DecideEnv.forSubject (env : DecideEnv) (userType : ℕ) (userId : String) : DecideEnv :=
  { env with check := { env.check with userType := userType, userId := userId } }

/-- The subjects that the walk finds. -/
def subjectIds (env : CheckEnv) (subjectType : ℕ) (root : Node) : List String :=
  (reachSubjects env root).flatMap (namedSubjects env subjectType)

/-- `_list_subjects` after the names are resolved and the namespace access is checked: the listed
ids with their wildcard mark. -/
def listSubjects (env : DecideEnv) (subjectType : ℕ) (q : Question) (limit : Option ℕ)
    (offset : ℕ) (after : Option String) : Except (Halt EngineError) (List (String × Bool)) :=
  let gates := env.gates.resolve q.node.objectType q.node.relation
  (page (fun u => decideAccess (env.forSubject subjectType u) (some gates) q)
    (if after.isNone then offset else 0) limit
    (candidates (subjectIds env.check subjectType q.node) after)).map
    fun rows => rows.map fun u => (u, decide (u = wildcard))

/-! ## The nodes the walk reaches -/

/-- The node is reached by the walk from `root`. -/
def ReachSubject (env : CheckEnv) (root n : Node) : Prop :=
  ReflTransGen (fun a b => b ∈ expandSubjects env a) root n

variable {env : CheckEnv} {root : Node}

theorem mem_expandSubjects_of_premise {n n' : Node} (h : DependsOnNode env n n') :
    n' ∈ expandSubjects env n := by
  obtain ⟨ρ, hρ, hp⟩ := h
  obtain ⟨hmem, hT, hr⟩ := mem_orderedRules.mp hρ
  have hrule : ρ ∈ env.rules.filter fun ρ =>
      ρ.objectType = n.objectType ∧ ρ.relation = n.relation :=
    List.mem_filter.mpr ⟨hmem, by simp [hT, hr]⟩
  -- a tuple on the object of the node, or on its wildcard
  have htuple : ∀ t ∈ walkTuples env, t.objectType = n.objectType →
      (t.objectId = n.objectId ∨ t.objectId = wildcard) → n' ∈ askThrough env.rules n t →
      n' ∈ expandSubjects env n := by
    intro t ht hT ho hn'
    refine List.mem_append_right _ (List.mem_flatMap.mpr ⟨t, List.mem_filter.mpr ⟨ht, ?_⟩, hn'⟩)
    simp [hT, ho]
  cases hbody : ρ.body with
  | direct =>
    rw [hbody] at hp
    rcases hp with ⟨t, ht, hn⟩ | ⟨hctx, t, ht, hn⟩
    · unfold usersetNode at hn
      split at hn
      · rename_i hrow
        obtain ⟨r, hur, rfl⟩ := Option.map_eq_some_iff.mp hn
        have ho : t.objectId = n.objectId ∨ t.objectId = wildcard := by simpa using hrow.2.1
        refine htuple t.toCtx (mem_walkTuples_of_stored ht) hrow.1 ho ?_
        simp [askThrough, Tuple.toCtx, hur, hrow.2.2]
      · cases hn
    · unfold ctxUsersetNode at hn
      split at hn
      · rename_i hrow
        obtain ⟨r, hur, rfl⟩ := Option.map_eq_some_iff.mp hn
        refine htuple t (mem_walkTuples_of_ctx hctx ht) hrow.1 (.inl hrow.2.1) ?_
        simp [askThrough, hur, hrow.2.2]
      · cases hn
  | computed r =>
    rw [hbody] at hp
    cases hp
    exact List.mem_append_left _ (List.mem_filterMap.mpr ⟨ρ, hrule, by rw [hbody]⟩)
  | ttu ts c =>
    rw [hbody] at hp
    rcases hp with ⟨t, ht, hn⟩ | ⟨hctx, t, ht, hn⟩
    · unfold linkNode at hn
      split at hn
      · rename_i hrow
        cases hn
        refine htuple t.toCtx (mem_walkTuples_of_stored ht) hrow.1 (.inl hrow.2.1) ?_
        simp only [askThrough, Tuple.toCtx, hrow.2.2.2]
        exact List.mem_filterMap.mpr ⟨ρ, hrule, by rw [hbody]; simp [hrow.2.2.1]⟩
      · cases hn
    · unfold ctxLinkNode at hn
      split at hn
      · rename_i hrow
        cases hn
        refine htuple t (mem_walkTuples_of_ctx hctx ht) hrow.1 (.inl hrow.2.1) ?_
        simp only [askThrough, hrow.2.2.2]
        exact List.mem_filterMap.mpr ⟨ρ, hrule, by rw [hbody]; simp [hrow.2.2.1]⟩
      · cases hn

theorem mem_checkObjects_of_walkTuples {t : CtxTuple} (ht : t ∈ walkTuples env) :
    (t.userType, t.userId) ∈ checkObjects env root := by
  rw [checkObjects, List.mem_append, List.mem_cons, List.mem_map, List.mem_map]
  rcases List.mem_append.mp ht with ht | ht
  · obtain ⟨t', ht', rfl⟩ := List.mem_map.mp ht
    exact .inl (.inr ⟨t', ht', rfl⟩)
  · split at ht
    · exact .inr ⟨t, ht, rfl⟩
    · cases ht

theorem mem_checkRelations_of_walkTuples {t : CtxTuple} (ht : t ∈ walkTuples env) {r : ℕ}
    (hr : t.userRelation = some r) : r ∈ checkRelations env root := by
  rw [checkRelations, List.mem_append, List.mem_append, List.mem_filterMap, List.mem_filterMap]
  rcases List.mem_append.mp ht with ht | ht
  · obtain ⟨t', ht', rfl⟩ := List.mem_map.mp ht
    exact .inl (.inr ⟨t', ht', hr⟩)
  · split at ht
    · exact .inr ⟨t, ht, hr⟩
    · cases ht

theorem mem_checkRelations_of_rule {ρ : Rule} (hρ : ρ ∈ env.rules) {r : ℕ}
    (hr : ρ.body = .computed r ∨ ∃ ts, ρ.body = .ttu ts r) : r ∈ checkRelations env root := by
  simp only [checkRelations, List.mem_append, List.mem_cons, List.mem_flatMap]
  refine .inl (.inl (.inr ⟨ρ, hρ, ?_⟩))
  rcases hr with hr | ⟨ts, hr⟩ <;> simp [hr]

/-- The walk stays within the nodes of the check. -/
theorem expandSubjects_mem_checkNodes {n n' : Node} (hn : n ∈ checkNodes env root)
    (hn' : n' ∈ expandSubjects env n) : n' ∈ checkNodes env root := by
  rw [mem_checkNodes] at hn ⊢
  rcases List.mem_append.mp hn' with h | h
  · obtain ⟨ρ, hρ, hbody⟩ := List.mem_filterMap.mp h
    split at hbody
    · rename_i hcomputed
      cases hbody
      exact ⟨mem_checkRelations_of_rule (List.mem_of_mem_filter hρ) (.inl hcomputed), hn.2⟩
    · cases hbody
  · obtain ⟨t, ht, h⟩ := List.mem_flatMap.mp h
    have ht' := List.mem_of_mem_filter ht
    unfold askThrough at h
    split at h
    · rename_i r hr
      split at h
      · rw [List.mem_singleton] at h
        subst h
        exact ⟨mem_checkRelations_of_walkTuples ht' hr, mem_checkObjects_of_walkTuples ht'⟩
      · cases h
    · obtain ⟨ρ, hρ, hbody⟩ := List.mem_filterMap.mp h
      split at hbody
      · rename_i ts c httu
        split at hbody
        · cases hbody
          exact ⟨mem_checkRelations_of_rule (List.mem_of_mem_filter hρ) (.inr ⟨ts, httu⟩),
            mem_checkObjects_of_walkTuples ht'⟩
        · cases hbody
      · cases hbody

/-- The recursive query finds the nodes that the walk reaches. -/
theorem mem_reachSubjects {n : Node} : n ∈ reachSubjects env root ↔ ReachSubject env root n := by
  have hunion : n ∈ reachSubjects env root ↔
      ∃ s ∈ [root], ReflTransGen (fun a b => b ∈ expandSubjects env a) s n := by
    refine mem_recursiveUnion (U := checkNodes env root) ?_ ?_ ?_
    · exact fun a ha b hb => expandSubjects_mem_checkNodes ha hb
    · intro s hs
      rw [List.mem_singleton.mp hs]
      exact root_mem_checkNodes env root
    · exact (List.toFinset_card_le _).trans (by simp [List.length_product])
  rw [hunion]
  simp [ReachSubject]

theorem ReachSubject.premise {n n' : Node} (hn : ReachSubject env root n)
    (h : DependsOnNode env n n') : ReachSubject env root n' :=
  hn.tail (mem_expandSubjects_of_premise h)

theorem mem_namedSubjects {subjectType : ℕ} {n : Node} {u : String} :
    u ∈ namedSubjects env subjectType n ↔
      ∃ t ∈ walkTuples env, t.objectType = n.objectType ∧
        (t.objectId = n.objectId ∨ t.objectId = wildcard) ∧ t.relation = n.relation ∧
        t.userType = subjectType ∧ t.userRelation = none ∧ t.userId = u := by
  simp [namedSubjects, and_assoc]

theorem mem_subjectIds {subjectType : ℕ} {u : String} :
    u ∈ subjectIds env subjectType root ↔
      ∃ n, ReachSubject env root n ∧ u ∈ namedSubjects env subjectType n := by
  simp [subjectIds, mem_reachSubjects]

/-! ## A subject that no tuple names -/

/-- The check of a subject in a listing. -/
def CheckEnv.forSubject (env : CheckEnv) (userType : ℕ) (userId : String) : CheckEnv :=
  { env with userType := userType, userId := userId, exclude := none }

/-- A probe asks nothing. -/
theorem probe_eq_lift (env : CheckEnv) (a : Bool) (row : Tuple → Bool) :
    ∃ x, probe env a row = Walk.lift x := by
  have hany : ∀ rows : List Tuple, ∃ x, Walk.any rows (fun t => Walk.lift
      (evalCondition env.toConditionEnv a t.conditionId t.conditionContext) : Tuple → Eval Bool) =
      Walk.lift x := by
    intro rows
    induction rows with
    | nil => exact ⟨.ok false, rfl⟩
    | cons t rows ih =>
      rw [Walk.any]
      cases evalCondition env.toConditionEnv a t.conditionId t.conditionContext with
      | error e => exact ⟨.error e, rfl⟩
      | ok c =>
        cases c with
        | true => exact ⟨.ok true, rfl⟩
        | false => exact ih
  unfold probe
  split
  · exact ⟨.ok true, rfl⟩
  · exact hany _

/-- A probe that failed is not tried again. -/
theorem probe_twice (a : Bool) (row : Tuple → Bool) (k : Eval Bool) :
    (do if ← probe env a row then return true
        if ← probe env a row then return true
        k) = (do if ← probe env a row then return true
                 k) := by
  obtain ⟨x, hx⟩ := probe_eq_lift env a row
  rw [hx]
  cases x with
  | error e => rfl
  | ok c => cases c <;> rfl

theorem probe_congr {a : Bool} {row row' : Tuple → Bool}
    (h : ∀ t ∈ env.tuples, row t = row' t) : probe env a row = probe env a row' := by
  have hany : (env.tuples.any fun t => row t && t.conditionId.isNone) =
      env.tuples.any fun t => row' t && t.conditionId.isNone := by
    rw [Bool.eq_iff_iff, List.any_eq_true, List.any_eq_true]
    exact exists_congr fun t => and_congr_right fun ht => by rw [h t ht]
  have hfilter : (env.tuples.filter fun t => row t && t.conditionId.isSome) =
      env.tuples.filter fun t => row' t && t.conditionId.isSome :=
    List.filter_congr fun t ht => by rw [h t ht]
  rw [probe, probe, hany, hfilter]

/-- A probe without a row fails. -/
theorem probe_eq_false {a : Bool} {row : Tuple → Bool} (h : ∀ t ∈ env.tuples, row t = false) :
    probe env a row = Walk.done false := by
  calc probe env a row = probe env a fun _ => false := probe_congr h
    _ = Walk.done false := by simp [probe, Walk.any]

variable {subjectType : ℕ} {u : String}

/-- At a reached node, a subject that no tuple names matches no row. -/
theorem ne_of_not_named {n : Node} (hu : u ∉ namedSubjects env subjectType n) {t : CtxTuple}
    (ht : t ∈ walkTuples env) (hT : t.objectType = n.objectType)
    (ho : t.objectId = n.objectId ∨ t.objectId = wildcard) (hr : t.relation = n.relation)
    (hut : t.userType = subjectType) (hur : t.userRelation = none) : t.userId ≠ u :=
  fun h => hu (mem_namedSubjects.mpr ⟨t, ht, hT, ho, hr, hut, hur, h⟩)

/-- A direct rule treats a subject that no tuple names as the wildcard. -/
theorem evalDirect_eq_wildcard {q : Question} (hu : u ∉ namedSubjects env subjectType q.node) :
    evalDirect (env.forSubject subjectType u) q =
      evalDirect (env.forSubject subjectType wildcard) q := by
  have hne : ∀ t ∈ env.tuples, t.objectType = q.node.objectType →
      (t.objectId = q.node.objectId ∨ t.objectId = wildcard) → t.relation = q.node.relation →
      t.userType = subjectType → t.userRelation = none → t.userId ≠ u :=
    fun t ht => ne_of_not_named hu (t := t.toCtx) (mem_walkTuples_of_stored ht)
  set star := env.forSubject subjectType wildcard with hdef
  -- no row of the subject's own
  have hown : probe star q.assume (directRow star q.node q.node.objectId [u]) =
      Walk.done false := by
    refine probe_eq_false fun t ht => ?_
    rw [Bool.eq_false_iff]
    intro hrow
    obtain ⟨hT, ho, hr, hut, hid, hur⟩ := directRow_iff.mp hrow
    exact hne t ht hT (.inl ho) hr hut hur (List.mem_singleton.mp hid)
  -- on the object wildcard only the rows of the wildcard subject count
  have hstar : probe star q.assume (directRow star q.node wildcard [u, wildcard]) =
      probe star q.assume (directRow star q.node wildcard [wildcard, wildcard]) := by
    refine probe_congr fun t ht => ?_
    rw [Bool.eq_iff_iff, directRow_iff, directRow_iff]
    refine and_congr_right fun hT => and_congr_right fun ho => and_congr_right fun hr =>
      and_congr_right fun hut => and_congr_left fun hur => ?_
    simp [hne t ht hT (.inr ho) hr hut hur]
  have hctx : (env.hasCtxTuples && checkCtxDirect (env.forSubject subjectType u) q.node) =
      (env.hasCtxTuples && checkCtxDirect star q.node) := by
    cases hctx : env.hasCtxTuples with
    | false => rfl
    | true =>
      rw [Bool.true_and, Bool.true_and, Bool.eq_iff_iff, checkCtxDirect, checkCtxDirect,
        List.any_eq_true, List.any_eq_true]
      refine exists_congr fun t => and_congr_right fun ht => ?_
      simp only [hdef, CheckEnv.forSubject, decide_eq_true_eq, List.mem_cons, List.not_mem_nil,
        or_false]
      refine and_congr_right fun hT => and_congr_right fun ho => and_congr_right fun hr =>
        and_congr_right fun hut => and_congr_left fun hur => ?_
      simp [ne_of_not_named hu (mem_walkTuples_of_ctx hctx ht) hT (.inl ho) hr hut hur]
  -- what a direct rule reads of its subject
  have hsplit : ∀ id, evalDirect (env.forSubject subjectType id) q = (do
      if ← probe star q.assume (directRow star q.node q.node.objectId [id]) then return true
      if ← probe star q.assume (directRow star q.node q.node.objectId [wildcard]) then return true
      if ← probe star q.assume (directRow star q.node wildcard [id, wildcard]) then return true
      if env.hasCtxTuples && checkCtxDirect (env.forSubject subjectType id) q.node then return true
      if ← followRows env q.assume (env.tuples.filter fun t => t.conditionId.isNone)
          (usersetNode q.node) then return true
      if ← followRows env q.assume (env.tuples.filter fun t => t.conditionId.isSome)
          (usersetNode q.node) then return true
      followCtxRows env q.assume (ctxUsersetNode q.node)) := fun id => rfl
  -- the subject's own probe fails, and the wildcard's own probe is its second one
  rw [hdef, hsplit u, hsplit wildcard, hown, hstar, hctx, probe_twice]
  rfl

theorem evalRule_eq_wildcard {q : Question} (hu : u ∉ namedSubjects env subjectType q.node)
    (body : RuleBody) : evalRule (env.forSubject subjectType u) q body =
      evalRule (env.forSubject subjectType wildcard) q body := by
  cases body with
  | direct => exact evalDirect_eq_wildcard hu
  | computed r => rfl
  | ttu ts c => rfl

theorem evalGroups_congr {eval eval' : Question → RuleBody → Eval Bool} {q : Question}
    (h : ∀ body a, eval ⟨q.node, a⟩ body = eval' ⟨q.node, a⟩ body)
    (st : GroupState) (l : List Rule) : evalGroups eval q st l = evalGroups eval' q st l := by
  induction l generalizing st with
  | nil => rfl
  | cons ρ l ih =>
    have hq := h ρ.body q.assume
    have hflip := h ρ.body !q.assume
    rw [evalGroups, evalGroups, hq, hflip]
    simp only [ih]

/-- At a node that the walk reaches, a subject that no reached tuple names is checked as the
wildcard is. -/
theorem checkAccessImpl_eq_wildcard (hu : u ∉ subjectIds env subjectType root) {q : Question}
    (hq : ReachSubject env root q.node) :
    checkAccessImpl (env.forSubject subjectType u) q =
      checkAccessImpl (env.forSubject subjectType wildcard) q := by
  have hnamed : u ∉ namedSubjects env subjectType q.node :=
    fun h => hu (mem_subjectIds.mpr ⟨q.node, hq, h⟩)
  exact evalGroups_congr (fun body a => evalRule_eq_wildcard (q := ⟨q.node, a⟩) hnamed body) _ _

/-- A check stays within the nodes that the walk reaches. -/
theorem ReachSubject.mayAsk {q r : Question} (hq : ReachSubject env root q.node)
    (hr : (checkAccessImpl (env.forSubject subjectType u) q).MayAsk r) :
    ReachSubject env root r.node := by
  obtain ⟨ρ, hρ, hp, -⟩ := mayAsk_evalGroups (fun _ _ _ => mayAsk_evalRule) hr
  exact hq.premise ⟨ρ, hρ, hp⟩

/-- **A subject that no reached tuple names is checked as the wildcard is.** -/
theorem checkAccess_eq_wildcard {q : Question} (hu : u ∉ subjectIds env subjectType q.node)
    (maxDepth : ℤ) (mode : MemoMode) :
    checkAccess (env.forSubject subjectType u) maxDepth mode q =
      checkAccess (env.forSubject subjectType wildcard) maxDepth mode q := by
  have hroot : ReachSubject env q.node q.node := .refl
  unfold checkAccess checkAccessRun
  rw [memoSearch_congr (C := fun r => ReachSubject env q.node r.node)
    (fun r r' hr hr' => hr.mayAsk hr') (fun r hr => checkAccessImpl_eq_wildcard hu hr) hroot]

/-- A tuple that grants the subject names it, or the wildcard. -/
theorem named_of_grant {n : Node} {a : Bool}
    (h : StoredGrant (env.forSubject subjectType u) a n ∨
      ContextualGrant (env.forSubject subjectType u) n) :
    u ∈ namedSubjects env subjectType n ∨ wildcard ∈ namedSubjects env subjectType n := by
  have hnamed : ∀ t ∈ walkTuples env, t.objectType = n.objectType →
      (t.objectId = n.objectId ∨ t.objectId = wildcard) → t.relation = n.relation →
      t.userType = subjectType → t.userRelation = none → (t.userId = u ∨ t.userId = wildcard) →
      u ∈ namedSubjects env subjectType n ∨ wildcard ∈ namedSubjects env subjectType n := by
    intro t ht hT ho hr hut hur hid
    rcases hid with hid | hid
    · exact .inl (mem_namedSubjects.mpr ⟨t, ht, hT, ho, hr, hut, hur, hid⟩)
    · exact .inr (mem_namedSubjects.mpr ⟨t, ht, hT, ho, hr, hut, hur, hid⟩)
  rcases h with ⟨t, ht, hr, hT, ho, hut, hid, hur, -⟩ | ⟨hctx, t, ht, hr, hT, ho, hut, hid, hur⟩
  · exact hnamed t.toCtx (mem_walkTuples_of_stored ht) hT (ho.imp_left And.left) hr hut hur hid
  · exact hnamed t (mem_walkTuples_of_ctx hctx ht) hT (.inl ho) hr hut hur hid

/-- An allowed subject or the wildcard is named by a tuple of a reached node. -/
theorem named_of_checkAccess {maxDepth : ℤ} {mode : MemoMode} {q : Question}
    (h : checkAccess (env.forSubject subjectType u) maxDepth mode q = .ok true) :
    u ∈ subjectIds env subjectType q.node ∨ wildcard ∈ subjectIds env subjectType q.node := by
  have hroot : ReachSubject env q.node q.node := .refl
  unfold checkAccess at h
  rcases hrun : checkAccessRun (env.forSubject subjectType u) maxDepth mode q with e | ⟨b, s⟩
  · simp [hrun, Except.map] at h
  · obtain rfl : b = true := by simpa [hrun, Except.map] using h
    refine (memoSearch_supported mode.backend_lawful (G := fun r =>
      ReachSubject env q.node r.node → u ∈ subjectIds env subjectType q.node ∨
        wildcard ∈ subjectIds env subjectType q.node) ?_ ?_ hrun).1 rfl hroot
    · -- a grant at the node names the subject, and a premise of the rule is reached as well
      intro r hr hreach
      obtain ⟨ρ, hρ, hholds⟩ := checkAccessImpl_true hr
      rcases or_assoc.mpr hholds.grant_or_premise with hgrant | ⟨n', hp, hn'⟩
      · refine (named_of_grant hgrant).imp ?_ ?_ <;>
          exact fun h => mem_subjectIds.mpr ⟨r.node, hreach, h⟩
      · exact hn' rfl (hreach.premise ⟨ρ, hρ, hp⟩)
    · intro r hr
      simp [mode.lookup_empty] at hr

/-! ## The listing against the check -/

variable {denv : DecideEnv} {q : Question}

theorem listSubjects_ok {limit : Option ℕ} {offset : ℕ} {after : Option String}
    {rows : List (String × Bool)}
    (h : listSubjects denv subjectType q limit offset after = .ok rows) :
    ∃ ids, page (fun u => decideAccess (denv.forSubject subjectType u) none q)
        (if after.isNone then offset else 0) limit
        (candidates (subjectIds denv.check subjectType q.node) after) = .ok ids ∧
      rows = ids.map fun u => (u, decide (u = wildcard)) := by
  unfold listSubjects at h
  dsimp only at h
  rcases hp : page (fun u => decideAccess (denv.forSubject subjectType u) none q)
      (if after.isNone then offset else 0) limit
      (candidates (subjectIds denv.check subjectType q.node) after) with e | ids
  · have h' : (Except.error e : Except (Halt EngineError) (List String)).map
        (fun rows => rows.map fun u => (u, decide (u = wildcard))) = .ok rows := by
      rw [← hp]
      exact h
    cases h'
  · have h' : (Except.ok ids : Except (Halt EngineError) (List String)).map
        (fun rows => rows.map fun u => (u, decide (u = wildcard))) = .ok rows := by
      rw [← hp]
      exact h
    cases h'
    exact ⟨ids, rfl, rfl⟩

/-- **The listing of subjects agrees with the check.** Where no gate of the relation is enforced,
every listed subject passes the check, on every page, and a listing without bounds holds every
subject that passes it, or the wildcard row. -/
theorem listSubjects_agrees (hg : denv.gates.NotEnforced q.node) :
    (∀ limit offset after rows, listSubjects denv subjectType q limit offset after = .ok rows →
      ∀ row ∈ rows, checkAccess (denv.check.forSubject subjectType row.1) denv.maxDepth denv.mode q =
        .ok true) ∧
    ∀ rows, listSubjects denv subjectType q none 0 none = .ok rows →
      ∀ u, checkAccess (denv.check.forSubject subjectType u) denv.maxDepth denv.mode q = .ok true →
        (u, decide (u = wildcard)) ∈ rows ∨ (wildcard, true) ∈ rows := by
  refine ⟨fun limit offset after rows h row hrow => ?_, fun rows h u hu => ?_⟩
  · obtain ⟨ids, hpage, rfl⟩ := listSubjects_ok h
    obtain ⟨u, hmem, rfl⟩ := List.mem_map.mp hrow
    exact (decideAccess_eq_true.mp (mem_page hpage hmem).2).1
  · obtain ⟨ids, hpage, rfl⟩ := listSubjects_ok h
    -- a named subject that passes the check is listed
    have hlisted : ∀ u, u ∈ subjectIds denv.check subjectType q.node →
        checkAccess (denv.check.forSubject subjectType u) denv.maxDepth denv.mode q = .ok true →
        (u, decide (u = wildcard)) ∈ ids.map fun u => (u, decide (u = wildcard)) := by
      intro u hmem hu
      have hcand : u ∈ candidates (subjectIds denv.check subjectType q.node) none :=
        mem_candidates.mpr ⟨hmem, fun a ha => nomatch ha⟩
      obtain ⟨b, hb, hrow⟩ := page_full hpage hcand
      exact List.mem_map.mpr ⟨u, hrow (decideAccess_of_not_enforced
        (denv.forSubject subjectType u) hg hu hb), rfl⟩
    by_cases hnamed : u ∈ subjectIds denv.check subjectType q.node
    · exact .inl (hlisted u hnamed hu)
    · have hstar := (named_of_checkAccess hu).resolve_left hnamed
      rw [checkAccess_eq_wildcard hnamed] at hu
      exact .inr (by simpa using hlisted wildcard hstar hu)

/-- A public document of which one subject is banned. -/
def publicDocument : DecideEnv where
  check :=
    { platform := ⟨fun _ _ _ _ => .failed, fun _ => 0, fun _ => ""⟩
      maxContextBytes := 262144
      conditions := []
      evalClock := 0
      requestContext := none
      rules := [⟨1, 3, .direct, 0, .exclusion, false⟩, ⟨1, 3, .computed 1, 0, .exclusion, true⟩,
        ⟨1, 1, .direct, 0, .or, false⟩]
      tuples := [⟨5, "*", none, 3, 1, "doc", none, none, none⟩,
        ⟨5, "ann", none, 1, 1, "doc", none, none, none⟩]
      ctxTuples := []
      hasCtxTuples := false
      exclude := none
      userType := 5
      userId := "ann" }
  maxDepth := 32
  mode := .temp
  gates := ⟨.enforce, [], fun _ _ _ _ _ => .ok true⟩

/-- A subject without a tuple sees the public document and is covered by the wildcard row. -/
theorem listSubjects_agrees_publicDocument :
    listSubjects publicDocument 5 ⟨⟨3, 1, "doc"⟩, false⟩ none 0 none = .ok [("*", true)] ∧
    (("bob", false) ∈ [("*", true)] ∨ (wildcard, true) ∈ [("*", true)]) := by
  have hlist : listSubjects publicDocument 5 ⟨⟨3, 1, "doc"⟩, false⟩ none 0 none =
      .ok [("*", true)] := by decide +kernel
  have hbob : checkAccess (publicDocument.check.forSubject 5 "bob") 32 .temp
      ⟨⟨3, 1, "doc"⟩, false⟩ = .ok true := by decide +kernel
  have hgates : ∀ g ∈ publicDocument.gates.resolve 1 3, g.mode ≠ .enforce := by decide
  exact ⟨hlist, (listSubjects_agrees (.inr hgates)).2 _ hlist "bob" hbob⟩

end PgAuthz
