import PgAuthz.Engine.Decide
import PgAuthz.Resolution.RecursiveUnion

/-!
# Listing the objects of a subject

`_list_objects` walks the grants of a subject forward: from the tuples of the subject it follows
computed relations, usersets and tupleset links to every node they may lead to, and then decides
the nodes of the relation and type asked for. The walk names an object wildcard by its own node
`*`: it does not follow from there the usersets and links of the other objects of that type, which
the check does follow.

## Main definitions

* `walkTuples`: the stored tuples and, if they count, the contextual ones
* `reachObjects`: the recursive query of the walk
* `listObjects`: `_list_objects`
* `WildcardsExpanded`: what the walk leaves out at an object wildcard it reaches in another way

## Main results

* `covered_of_checkAccess`: an object that the check allows is reached, itself or by its wildcard
* `listObjects_agrees`: every listed object is allowed, and where wildcards are expanded every
  allowed object is listed or covered by the wildcard row
-/

namespace PgAuthz

open Resolution
open Relation (ReflTransGen)

/-! ## The walk -/

/-- A stored tuple without its condition. -/
def Tuple.toCtx (t : Tuple) : CtxTuple :=
  ⟨t.userType, t.userId, t.userRelation, t.relation, t.objectType, t.objectId⟩

/-- The tuples a walk follows: its branches for stored and for contextual tuples have the same
conditions. -/
def walkTuples (env : CheckEnv) : List CtxTuple :=
  env.tuples.map Tuple.toCtx ++ if env.hasCtxTuples then env.ctxTuples else []

/-- The node that a tuple grants. -/
def CtxTuple.objectNode (t : CtxTuple) : Node := ⟨t.relation, t.objectType, t.objectId⟩

/-- The relations of a type that a rule computes from the relation `c` through the tupleset `ts`. -/
def ttuHeads (rules : List Rule) (objectType ts c : ℕ) : List ℕ :=
  (rules.filter fun ρ => ρ.objectType = objectType ∧ ρ.body = .ttu ts c).map Rule.relation

/-- The relations of a type that a rule computes from the relation `r` of the same object. -/
def computedHeads (rules : List Rule) (objectType r : ℕ) : List ℕ :=
  (rules.filter fun ρ => ρ.objectType = objectType ∧ ρ.body = .computed r).map Rule.relation

/-- The seeds of the walk: the grants of the subject and of the wildcard of its type. -/
def seedObjects (env : CheckEnv) : List Node :=
  ((walkTuples env).filter fun t => t.userType = env.userType ∧
    t.userId ∈ [env.userId, wildcard] ∧ t.userRelation = none).map CtxTuple.objectNode

/-- The nodes that the tuple `t` leads to from `(A, r)`: a grant to the userset `A#r`, or a rule
over a link to `A`. -/
def followTuple (rules : List Rule) (r : ℕ) (t : CtxTuple) : List Node :=
  match t.userRelation with
  | some r' => if r' = r then [t.objectNode] else []
  | none => (ttuHeads rules t.objectType t.relation r).map fun h => ⟨h, t.objectType, t.objectId⟩

/-- The recursive term of the walk. -/
def expandObjects (env : CheckEnv) (n : Node) : List Node :=
  ((computedHeads env.rules n.objectType n.relation).map fun h => { n with relation := h }) ++
    ((walkTuples env).filter fun t => t.userType = n.objectType ∧ t.userId = n.objectId).flatMap
      (followTuple env.rules n.relation)

/-- All the nodes that the walk can reach: the relations of rules and tuples on the objects of
tuples. -/
def walkNodes (env : CheckEnv) : List Node :=
  ((env.rules.map Rule.relation ++ (walkTuples env).map CtxTuple.relation) ×ˢ
    (walkTuples env).map fun t => (t.objectType, t.objectId)).map fun p => ⟨p.1, p.2.1, p.2.2⟩

/-- The recursive query of the walk; it ends after at most as many rounds as there are nodes. -/
def reachObjects (env : CheckEnv) : List Node :=
  recursiveUnion (expandObjects env) (walkNodes env).length (seedObjects env).dedup
    (seedObjects env).dedup

/-- The node is reached by the walk. -/
def ReachObject (env : CheckEnv) (n : Node) : Prop :=
  ∃ s ∈ seedObjects env, ReflTransGen (fun a b => b ∈ expandObjects env a) s n

/-- The candidates of a listing in order: the ids after the cursor, each once. -/
def candidates (ids : List String) (after : Option String) : List String :=
  (ids.dedup.filter fun id => match after with
    | none => true
    | some a => decide (a < id)).insertionSort (· ≤ ·)

/-- `_list_objects` after the names are resolved and the namespace access is checked: the listed
ids with their wildcard mark. Gates without a clause of object scope are settled once for the
subject. -/
def listObjects (env : DecideEnv) (relation objectType : ℕ) (assume : Bool) (limit : Option ℕ)
    (offset : ℕ) (after : Option String) : Except (Halt EngineError) (List (String × Bool)) :=
  let gates := env.gates.resolve objectType relation
  let ids := ((reachObjects env.check).filter fun n =>
    n.objectType = objectType ∧ n.relation = relation).map Node.objectId
  let list (gates : List Gate) : Except (Halt EngineError) (List (String × Bool)) :=
    (page (fun o => decideAccess env (some gates) ⟨⟨relation, objectType, o⟩, assume⟩)
      (if after.isNone then offset else 0) limit (candidates ids after)).map
      fun rows => rows.map fun o => (o, decide (o = wildcard))
  if eventGatesObjectScoped gates then list gates
  else
    match eventCheckGates env.gates env.check.userType env.check.userId relation objectType none
        gates with
    | .error e => .error (.raised e)
    | .ok false => .ok []
    | .ok true => list []

/-! ## The nodes the walk reaches -/

variable {env : CheckEnv}

theorem mem_walkNodes {n : Node} : n ∈ walkNodes env ↔
    (n.relation ∈ env.rules.map Rule.relation ∨
      n.relation ∈ (walkTuples env).map CtxTuple.relation) ∧
    (n.objectType, n.objectId) ∈ (walkTuples env).map fun t => (t.objectType, t.objectId) := by
  rw [walkNodes, List.mem_map]
  constructor
  · rintro ⟨⟨r, T, o⟩, hp, rfl⟩
    obtain ⟨hr, ho⟩ := List.pair_mem_product.mp hp
    exact ⟨List.mem_append.mp hr, ho⟩
  · rintro ⟨hr, ho⟩
    exact ⟨(n.relation, n.objectType, n.objectId),
      List.pair_mem_product.mpr ⟨List.mem_append.mpr hr, ho⟩, rfl⟩

theorem mem_computedHeads {rules : List Rule} {T r h : ℕ} :
    h ∈ computedHeads rules T r ↔
      ∃ ρ ∈ rules, ρ.objectType = T ∧ ρ.body = .computed r ∧ ρ.relation = h := by
  simp [computedHeads, and_assoc]

theorem mem_ttuHeads {rules : List Rule} {T ts c h : ℕ} :
    h ∈ ttuHeads rules T ts c ↔
      ∃ ρ ∈ rules, ρ.objectType = T ∧ ρ.body = .ttu ts c ∧ ρ.relation = h := by
  simp [ttuHeads, and_assoc]

theorem followTuple_mem_walkNodes {t : CtxTuple} (ht : t ∈ walkTuples env) {r : ℕ} {n : Node}
    (hn : n ∈ followTuple env.rules r t) : n ∈ walkNodes env := by
  have hobj : (t.objectType, t.objectId) ∈
      (walkTuples env).map fun t => (t.objectType, t.objectId) := List.mem_map.mpr ⟨t, ht, rfl⟩
  unfold followTuple at hn
  split at hn
  · split at hn
    · rw [List.mem_singleton] at hn
      subst hn
      exact mem_walkNodes.mpr ⟨.inr (List.mem_map.mpr ⟨t, ht, rfl⟩), hobj⟩
    · cases hn
  · obtain ⟨h, hh, rfl⟩ := List.mem_map.mp hn
    obtain ⟨ρ, hρ, -, -, rfl⟩ := mem_ttuHeads.mp hh
    exact mem_walkNodes.mpr ⟨.inl (List.mem_map.mpr ⟨ρ, hρ, rfl⟩), hobj⟩

theorem expandObjects_mem_walkNodes {n n' : Node} (hn : n ∈ walkNodes env)
    (hn' : n' ∈ expandObjects env n) : n' ∈ walkNodes env := by
  rcases List.mem_append.mp hn' with h | h
  · obtain ⟨r, hr, rfl⟩ := List.mem_map.mp h
    obtain ⟨ρ, hρ, -, -, rfl⟩ := mem_computedHeads.mp hr
    exact mem_walkNodes.mpr ⟨.inl (List.mem_map.mpr ⟨ρ, hρ, rfl⟩), (mem_walkNodes.mp hn).2⟩
  · obtain ⟨t, ht, hn'⟩ := List.mem_flatMap.mp h
    exact followTuple_mem_walkNodes (List.mem_of_mem_filter ht) hn'

theorem seedObjects_mem_walkNodes {n : Node} (hn : n ∈ seedObjects env) : n ∈ walkNodes env := by
  obtain ⟨t, ht, rfl⟩ := List.mem_map.mp hn
  have ht' := List.mem_of_mem_filter ht
  exact mem_walkNodes.mpr ⟨.inr (List.mem_map.mpr ⟨t, ht', rfl⟩), List.mem_map.mpr ⟨t, ht', rfl⟩⟩

/-- The recursive query finds the nodes that the walk reaches. -/
theorem mem_reachObjects {n : Node} : n ∈ reachObjects env ↔ ReachObject env n := by
  refine mem_recursiveUnion (U := (walkNodes env).toFinset) ?_ ?_ (List.toFinset_card_le _)
  · intro a ha b hb
    rw [List.mem_toFinset] at ha ⊢
    exact expandObjects_mem_walkNodes ha hb
  · exact fun s hs => List.mem_toFinset.mpr (seedObjects_mem_walkNodes hs)

theorem ReachObject.expand {n n' : Node} (hn : ReachObject env n)
    (hn' : n' ∈ expandObjects env n) : ReachObject env n' := by
  obtain ⟨s, hs, hreach⟩ := hn
  exact ⟨s, hs, hreach.tail hn'⟩

theorem ReachObject.follow {n : Node} (hn : ReachObject env n) {t : CtxTuple}
    (ht : t ∈ walkTuples env) (hT : t.userType = n.objectType) (ho : t.userId = n.objectId)
    {n' : Node} (hn' : n' ∈ followTuple env.rules n.relation t) : ReachObject env n' :=
  hn.expand (List.mem_append_right _ (List.mem_flatMap.mpr
    ⟨t, List.mem_filter.mpr ⟨ht, by simp [hT, ho]⟩, hn'⟩))

/-! ## Objects the check allows -/

/-- The node on the object wildcard of its type. -/
def Node.onWildcard (n : Node) : Node := { n with objectId := wildcard }

/-- The node or its wildcard is reached. -/
def Covered (env : CheckEnv) (n : Node) : Prop := ReachObject env n ∨ ReachObject env n.onWildcard

/-- **At an object wildcard that the walk reaches, nothing is left out**: what the tuples of the
objects of that type lead to is reached as well. -/
def WildcardsExpanded (env : CheckEnv) : Prop :=
  ∀ n, ReachObject env n → n.objectId = wildcard → ∀ t ∈ walkTuples env,
    t.userType = n.objectType → ∀ n' ∈ followTuple env.rules n.relation t, ReachObject env n'

theorem Covered.follow (hw : WildcardsExpanded env) {n : Node} (hn : Covered env n) {t : CtxTuple}
    (ht : t ∈ walkTuples env) (hT : t.userType = n.objectType) (ho : t.userId = n.objectId)
    {n' : Node} (hn' : n' ∈ followTuple env.rules n.relation t) : ReachObject env n' := by
  rcases hn with hn | hn
  · exact hn.follow ht hT ho hn'
  · exact hw _ hn rfl t ht hT n' hn'

theorem mem_walkTuples_of_stored {t : Tuple} (ht : t ∈ env.tuples) : t.toCtx ∈ walkTuples env :=
  List.mem_append_left _ (List.mem_map.mpr ⟨t, ht, rfl⟩)

theorem mem_walkTuples_of_ctx {t : CtxTuple} (hctx : env.hasCtxTuples = true)
    (ht : t ∈ env.ctxTuples) : t ∈ walkTuples env :=
  List.mem_append_right _ (by rwa [if_pos hctx])

theorem reachObject_of_seed {t : CtxTuple} (ht : t ∈ walkTuples env)
    (hT : t.userType = env.userType) (hu : t.userId = env.userId ∨ t.userId = wildcard)
    (hr : t.userRelation = none) : ReachObject env t.objectNode :=
  ⟨_, List.mem_map.mpr ⟨t, List.mem_filter.mpr ⟨ht, by simp [hT, hu, hr]⟩, rfl⟩, .refl⟩

/-- A rule that holds over covered nodes covers its node. -/
theorem covered_of_ruleHolds (hw : WildcardsExpanded env) {q : Question} {ρ : Rule}
    (hρ : ρ ∈ orderedRules env.rules q.node.objectType q.node.relation)
    (h : RuleHolds env {r | Covered env r.node} q ρ.body) : Covered env q.node := by
  obtain ⟨hmem, hT, hr⟩ := mem_orderedRules.mp hρ
  cases hbody : ρ.body with
  | direct =>
    rw [hbody] at h
    rcases h with ⟨t, ht, hrel, htype, ho, hut, hu, hur, -⟩ |
      ⟨hctx, t, ht, hrel, htype, ho, hut, hu, hur⟩ | ⟨n', hn', hcov⟩
    · -- a stored grant to the user seeds the walk, on the object or on its wildcard
      have hreach := reachObject_of_seed (mem_walkTuples_of_stored ht) hut hu hur
      rcases ho with ⟨ho, -⟩ | ho
      · left
        convert hreach using 1
        simp [CtxTuple.objectNode, Tuple.toCtx, hrel, htype, ho]
      · right
        convert hreach using 1
        simp [CtxTuple.objectNode, Tuple.toCtx, Node.onWildcard, hrel, htype, ho]
    · -- a contextual one names the object
      left
      convert reachObject_of_seed (mem_walkTuples_of_ctx hctx ht) hut hu hur using 1
      simp [CtxTuple.objectNode, hrel, htype, ho]
    · -- a userset: the grant to it is on the object or on its wildcard
      rcases hn' with ⟨t, ht, hn', -⟩ | ⟨hctx, t, ht, hn'⟩
      · unfold usersetNode at hn'
        split at hn'
        · rename_i hrow
          obtain ⟨hrow1, hrow2, hrow3⟩ := hrow
          obtain ⟨r, hur, rfl⟩ := Option.map_eq_some_iff.mp hn'
          have hreach : ReachObject env t.toCtx.objectNode :=
            Covered.follow hw hcov (mem_walkTuples_of_stored ht) rfl rfl
              (by simp [followTuple, Tuple.toCtx, hur])
          rw [List.mem_cons, List.mem_singleton] at hrow2
          rcases hrow2 with ho | ho
          · left
            convert hreach using 1
            simp [CtxTuple.objectNode, Tuple.toCtx, hrow1, hrow3, ho]
          · right
            convert hreach using 1
            simp [CtxTuple.objectNode, Tuple.toCtx, Node.onWildcard, hrow1, hrow3, ho]
        · cases hn'
      · unfold ctxUsersetNode at hn'
        split at hn'
        · rename_i hrow
          obtain ⟨hrow1, hrow2, hrow3⟩ := hrow
          obtain ⟨r, hur, rfl⟩ := Option.map_eq_some_iff.mp hn'
          have hreach : ReachObject env t.objectNode :=
            Covered.follow hw hcov (mem_walkTuples_of_ctx hctx ht) rfl rfl
              (by simp [followTuple, hur])
          left
          convert hreach using 1
          simp [CtxTuple.objectNode, hrow1, hrow2, hrow3]
        · cases hn'
  -- the walk climbs from a relation to those that are computed from it
  | computed r =>
    rw [hbody] at h
    have hhead : ∀ n : Node, n.objectType = q.node.objectType →
        { n with relation := q.node.relation } ∈ expandObjects env { n with relation := r } := by
      intro n hn
      refine List.mem_append_left _ (List.mem_map.mpr ⟨q.node.relation, ?_, rfl⟩)
      exact mem_computedHeads.mpr ⟨ρ, hmem, by rw [hT, hn], hbody, hr⟩
    rcases h with h | h
    · exact .inl (h.expand (hhead q.node rfl))
    · exact .inr (h.expand (hhead q.node.onWildcard rfl))
  -- and from the target of a link to what links to it
  | ttu ts c =>
    rw [hbody] at h
    obtain ⟨n', hn', hcov⟩ := h
    have hhead : q.node.relation ∈ ttuHeads env.rules q.node.objectType ts c :=
      mem_ttuHeads.mpr ⟨ρ, hmem, hT, hbody, hr⟩
    left
    rcases hn' with ⟨t, ht, hn', -⟩ | ⟨hctx, t, ht, hn'⟩
    · unfold linkNode at hn'
      split at hn'
      · rename_i hrow
        obtain ⟨hrow1, hrow2, hrow3, hrow4⟩ := hrow
        cases hn'
        refine Covered.follow hw hcov (mem_walkTuples_of_stored ht) rfl rfl ?_
        simp only [followTuple, Tuple.toCtx, hrow4, List.mem_map]
        refine ⟨q.node.relation, by rwa [hrow1, hrow3], ?_⟩
        rw [hrow1, hrow2]
      · cases hn'
    · unfold ctxLinkNode at hn'
      split at hn'
      · rename_i hrow
        obtain ⟨hrow1, hrow2, hrow3, hrow4⟩ := hrow
        cases hn'
        refine Covered.follow hw hcov (mem_walkTuples_of_ctx hctx ht) rfl rfl ?_
        simp only [followTuple, hrow4, List.mem_map]
        refine ⟨q.node.relation, by rwa [hrow1, hrow3], ?_⟩
        rw [hrow1, hrow2]
      · cases hn'

/-- **A node that the check allows is covered** by the walk, where wildcards are expanded. -/
theorem covered_of_checkAccess (hw : WildcardsExpanded env) {maxDepth : ℤ} {mode : MemoMode}
    {q : Question} (h : checkAccess env maxDepth mode q = .ok true) : Covered env q.node := by
  unfold checkAccess at h
  rcases hrun : checkAccessRun env maxDepth mode q with e | ⟨b, s⟩
  · simp [hrun, Except.map] at h
  · obtain rfl : b = true := by simpa [hrun, Except.map] using h
    refine (memoSearch_supported mode.backend_lawful (G := fun q => Covered env q.node) ?_ ?_
      hrun).1 rfl
    · intro r hr
      obtain ⟨ρ, hρ, hholds⟩ := checkAccessImpl_true hr
      have hsub : {r : Question | true = true → Covered env r.node} ⊆ {r | Covered env r.node} :=
        fun r hr => hr rfl
      exact covered_of_ruleHolds hw hρ (hholds.mono hsub)
    · intro r hr
      simp [mode.lookup_empty] at hr

/-! ## The listing against the check -/

theorem mem_candidates {ids : List String} {after : Option String} {o : String} :
    o ∈ candidates ids after ↔ o ∈ ids ∧ ∀ a, after = some a → a < o := by
  cases after <;> simp [candidates, List.mem_insertionSort]

variable {denv : DecideEnv} {relation objectType : ℕ} {assume : Bool}

/-- What a listing verifies is the decision on the object. -/
theorem listObjects_cases {limit : Option ℕ} {offset : ℕ} {after : Option String}
    {rows : List (String × Bool)}
    (h : listObjects denv relation objectType assume limit offset after = .ok rows) :
    (rows = [] ∧ ∀ o, decideAccess denv none ⟨⟨relation, objectType, o⟩, assume⟩ ≠ .ok true) ∨
    ∃ verify : String → Except (Halt EngineError) Bool,
      (∀ o, verify o = .ok true ↔
        decideAccess denv none ⟨⟨relation, objectType, o⟩, assume⟩ = .ok true) ∧
      ∃ ids, page verify (if after.isNone then offset else 0) limit (candidates
          (((reachObjects denv.check).filter fun n =>
            n.objectType = objectType ∧ n.relation = relation).map Node.objectId) after) =
          .ok ids ∧ rows = ids.map fun o => (o, decide (o = wildcard)) := by
  have hmap : ∀ {x : Except (Halt EngineError) (List String)} {f : List String → List (String × Bool)},
      x.map f = .ok rows → ∃ ids, x = .ok ids ∧ rows = f ids := by
    intro x f hx
    cases x with
    | error e => cases hx
    | ok ids =>
      cases hx
      exact ⟨ids, rfl, rfl⟩
  unfold listObjects at h
  dsimp only at h
  split at h
  · exact .inr ⟨_, fun o => Iff.rfl, hmap h⟩
  · rename_i hscope
    have hsame : ∀ o, eventCheckGates denv.gates denv.check.userType denv.check.userId relation
        objectType (some o) (denv.gates.resolve objectType relation) =
        eventCheckGates denv.gates denv.check.userType denv.check.userId relation objectType none
          (denv.gates.resolve objectType relation) := fun o =>
      eventCheckGates_of_subject_scoped (by simpa using hscope) _ _
    split at h
    · cases h
    · rename_i hgate
      cases h
      refine .inl ⟨rfl, fun o ho => ?_⟩
      have hdec := (decideAccess_eq_true.mp ho).2
      simp only [Option.getD_none] at hdec
      rw [hsame o, hgate] at hdec
      cases hdec
    · rename_i hgate
      refine .inr ⟨_, fun o => ?_, hmap h⟩
      rw [decideAccess_eq_true, decideAccess_eq_true]
      refine and_congr_right fun _ => ?_
      simp only [Option.getD_none, Option.getD_some]
      rw [hsame o, hgate]
      simp [eventCheckGates]

/-- **The listing of objects agrees with the check.** Every listed object is allowed, on every
page. Where wildcards are expanded and a reached wildcard of the type asked for is allowed, a
listing without bounds holds every allowed object, or the wildcard row. -/
theorem listObjects_agrees (hw : WildcardsExpanded denv.check)
    (hstar : ReachObject denv.check ⟨relation, objectType, wildcard⟩ →
      decideAccess denv none ⟨⟨relation, objectType, wildcard⟩, assume⟩ = .ok true) :
    (∀ limit offset after rows,
      listObjects denv relation objectType assume limit offset after = .ok rows →
      ∀ row ∈ rows, decideAccess denv none ⟨⟨relation, objectType, row.1⟩, assume⟩ = .ok true) ∧
    ∀ rows, listObjects denv relation objectType assume none 0 none = .ok rows →
      ∀ o, decideAccess denv none ⟨⟨relation, objectType, o⟩, assume⟩ = .ok true →
        (o, decide (o = wildcard)) ∈ rows ∨ (wildcard, true) ∈ rows := by
  refine ⟨fun limit offset after rows h row hrow => ?_, fun rows h o ho => ?_⟩
  · rcases listObjects_cases h with ⟨rfl, -⟩ | ⟨verify, hverify, ids, hpage, rfl⟩
    · cases hrow
    · obtain ⟨o, ho, rfl⟩ := List.mem_map.mp hrow
      exact (hverify o).mp (mem_page hpage ho).2
  · rcases listObjects_cases h with ⟨-, hnone⟩ | ⟨verify, hverify, ids, hpage, rfl⟩
    · exact absurd ho (hnone o)
    · -- a reached object that is allowed is listed
      have hlisted : ∀ o, ReachObject denv.check ⟨relation, objectType, o⟩ →
          decideAccess denv none ⟨⟨relation, objectType, o⟩, assume⟩ = .ok true →
          (o, decide (o = wildcard)) ∈ ids.map fun o => (o, decide (o = wildcard)) := by
        intro o hreach hdec
        have hcand : o ∈ candidates (((reachObjects denv.check).filter fun n =>
            n.objectType = objectType ∧ n.relation = relation).map Node.objectId) none := by
          refine mem_candidates.mpr ⟨List.mem_map.mpr ⟨⟨relation, objectType, o⟩, ?_, rfl⟩, ?_⟩
          · exact List.mem_filter.mpr ⟨mem_reachObjects.mpr hreach, by simp⟩
          · exact fun a ha => nomatch ha
        obtain ⟨b, hb, hmem⟩ := page_full hpage hcand
        rw [(hverify o).mpr hdec] at hb
        exact List.mem_map.mpr ⟨o, hmem (Except.ok.inj hb).symm, rfl⟩
      -- the tuple left out is no part of the walk
      have hw' : WildcardsExpanded { denv.check with exclude := none } := hw
      have hcov : Covered denv.check ⟨relation, objectType, o⟩ :=
        covered_of_checkAccess hw' (decideAccess_eq_true.mp ho).1
      rcases hcov with hreach | hreach
      · exact .inl (hlisted o hreach ho)
      · exact .inr (by simpa using hlisted wildcard hreach (hstar hreach))

/-! ## An object that the walk misses -/

/-- A subject, with a model in which documents are viewed by the members of groups, and no gates. -/
def groupViewers (tuples : List Tuple) : DecideEnv where
  check :=
    { platform := ⟨fun _ _ _ _ => .failed, fun _ => 0, fun _ => ""⟩
      maxContextBytes := 262144
      conditions := []
      evalClock := 0
      requestContext := none
      rules := [⟨1, 1, .direct, 0, .or, false⟩, ⟨2, 2, .direct, 0, .or, false⟩]
      tuples := tuples
      ctxTuples := []
      hasCtxTuples := false
      exclude := none
      userType := 3
      userId := "ann" }
  maxDepth := 32
  mode := .temp
  gates := ⟨.enforce, [], fun _ _ _ _ _ => .ok true⟩

/-- A member of the group `g` of a document's viewers is listed with the document. -/
theorem listObjects_agrees_groupViewers :
    listObjects (groupViewers [⟨3, "ann", none, 2, 2, "g", none, none, none⟩,
        ⟨2, "g", some 2, 1, 1, "doc", none, none, none⟩]) 1 1 false none 0 none =
      .ok [("doc", false)] ∧
    decideAccess (groupViewers [⟨3, "ann", none, 2, 2, "g", none, none, none⟩,
        ⟨2, "g", some 2, 1, 1, "doc", none, none, none⟩]) none ⟨⟨1, 1, "doc"⟩, false⟩ =
      .ok true := by
  have hlist : listObjects (groupViewers [⟨3, "ann", none, 2, 2, "g", none, none, none⟩,
        ⟨2, "g", some 2, 1, 1, "doc", none, none, none⟩]) 1 1 false none 0 none =
      .ok [("doc", false)] := by decide +kernel
  have hnone : ∀ n ∈ reachObjects (groupViewers [⟨3, "ann", none, 2, 2, "g", none, none, none⟩,
        ⟨2, "g", some 2, 1, 1, "doc", none, none, none⟩]).check, n.objectId ≠ wildcard := by
    decide +kernel
  refine ⟨hlist, (listObjects_agrees ?_ ?_).1 none 0 none _ hlist ("doc", false) (by simp)⟩
  · exact fun n hn ho => absurd ho (hnone n (mem_reachObjects.mpr hn))
  · exact fun hn => absurd rfl (hnone _ (mem_reachObjects.mpr hn))

/-- A member of every group sees the document of the group `g` and is not listed with it: the walk
stops at the node of the object wildcard. -/
theorem groupViewers_misses_document :
    decideAccess (groupViewers [⟨3, "ann", none, 2, 2, "*", none, none, none⟩,
        ⟨2, "g", some 2, 1, 1, "doc", none, none, none⟩]) none ⟨⟨1, 1, "doc"⟩, false⟩ =
      .ok true ∧
    listObjects (groupViewers [⟨3, "ann", none, 2, 2, "*", none, none, none⟩,
        ⟨2, "g", some 2, 1, 1, "doc", none, none, none⟩]) 1 1 false none 0 none = .ok [] := by
  refine ⟨?_, ?_⟩ <;> decide +kernel

end PgAuthz
