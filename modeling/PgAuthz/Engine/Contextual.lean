import Mathlib.Data.Fintype.EquivFin
import Mathlib.Data.List.Dedup
import PgAuthz.Engine.MemoTransparency
import PgAuthz.Engine.Decide

/-!
# Contextual tuples and stored ones

A request may bring tuples of its own. They are matched by queries beside those on the stored
tuples: one for the direct grants, one for the usersets and one for the links. The links are matched
alike. The direct grants and the usersets of stored tuples also count on the object wildcard, those
of contextual tuples only on the object itself: a contextual tuple on the object wildcard gives
nothing to the objects of its type. Every other contextual tuple gives what it would give if it were
stored without a condition, through any mix of stored and contextual tuples.

## Main definitions

* `checkAccessWithContext`, `checkAccessWithContextualTuples`: the two entry points
* `StoredWith tuples ctx tuples'`: the stored tuples after the contextual ones are stored
* `LikeStored C`: on every store and request, the list `C` counts as if it were stored

## Main results

* `ruleHolds_stored_iff`: a rule says the same over both kinds of tuples
* `decide_contextual_agree`: the decisions agree
* `likeStored_iff`: the lists that count as if stored are those without the object wildcard
-/

namespace PgAuthz

open Resolution

/-! ## The entry points -/

/-- The composite type `authz.tuple_input`. -/
structure TupleInput where
  userType : String
  userId : String
  userRelation : Option String
  relation : String
  objectType : String
  objectId : String
deriving DecidableEq, Repr

/-- The types and the relations of a store, by name. Names and ids are unique. -/
structure StoreCatalog where
  types : List (String × ℕ)
  relations : List (String × ℕ)
  types_name : (types.map Prod.fst).Nodup
  types_id : (types.map Prod.snd).Nodup
  relations_name : (relations.map Prod.fst).Nodup
  relations_id : (relations.map Prod.snd).Nodup

/-- What an entry point raises: an unknown name, a namespace that the role may not read, or an error
of the decision. -/
inductive ApiError
  | unknownType (name : String)
  | unknownRelation (name : String)
  | namespaceDenied (objectType : ℕ)
  | halted (e : Halt EngineError)
deriving DecidableEq, Repr

/-- `_t`. -/
def StoreCatalog.t (cat : StoreCatalog) (name : String) : Except ApiError ℕ :=
  match cat.types.lookup name with
  | some id => .ok id
  | none => .error (.unknownType name)

/-- `_r`. -/
def StoreCatalog.r (cat : StoreCatalog) (name : String) : Except ApiError ℕ :=
  match cat.relations.lookup name with
  | some id => .ok id
  | none => .error (.unknownRelation name)

/-- What the entry points read: the names of the store, the types whose namespace the effective role
may read, and what a decision reads. Its subject, its request context and its contextual tuples are
those of the call. -/
structure ApiEnv where
  catalog : StoreCatalog
  canRead : ℕ → Bool
  decide : DecideEnv

/-- The arguments of a check. -/
structure NamedRequest where
  userType : String
  userId : String
  relation : String
  objectType : String
  objectId : String
  context : Option Context
deriving DecidableEq, Repr

/-- `_check_namespace_access(…, 'can_read')`. -/
def ApiEnv.checkNamespaceAccess (api : ApiEnv) (objectType : ℕ) : Except ApiError Unit :=
  if api.canRead objectType then .ok () else .error (.namespaceDenied objectType)

/-- The check of a subject with a request context, contextual tuples apart. -/
def ApiEnv.checkEnv (api : ApiEnv) (req : NamedRequest) (userType : ℕ) : CheckEnv :=
  { api.decide.check with
    userType := userType, userId := req.userId, requestContext := req.context,
    ctxTuples := [], hasCtxTuples := false, exclude := none }

/-- A check to which contextual tuples are loaded; it has some if the list is not empty. -/
def CheckEnv.withContextual (env : CheckEnv) (ctx : List CtxTuple) : CheckEnv :=
  { env with ctxTuples := ctx, hasCtxTuples := !ctx.isEmpty }

/-- A check over other stored tuples. -/
def CheckEnv.withStored (env : CheckEnv) (tuples : List Tuple) : CheckEnv :=
  { env with tuples := tuples }

/-- The question of a request, under the missing-context switch a check starts with. -/
def NamedRequest.question (req : NamedRequest) (relation objectType : ℕ) : Question :=
  ⟨⟨relation, objectType, req.objectId⟩, false⟩

/-- `check_access_with_context`; `check_access` is the one without a context. -/
def checkAccessWithContext (api : ApiEnv) (req : NamedRequest) : Except ApiError Bool := do
  let objectType ← api.catalog.t req.objectType
  api.checkNamespaceAccess objectType
  let userType ← api.catalog.t req.userType
  let relation ← api.catalog.r req.relation
  (decideAccess { api.decide with check := api.checkEnv req userType } none
    (req.question relation objectType)).mapError .halted

/-- The relation of a userset, none if there is none. -/
def StoreCatalog.userRelation (cat : StoreCatalog) : Option String → Except ApiError (Option ℕ)
  | none => .ok none
  | some name => (cat.r name).map some

/-- A contextual tuple as a row of the temporary table. -/
def StoreCatalog.ctxTuple (cat : StoreCatalog) (t : TupleInput) : Except ApiError CtxTuple := do
  let userType ← cat.t t.userType
  let userRelation ← cat.userRelation t.userRelation
  let relation ← cat.r t.relation
  let objectType ← cat.t t.objectType
  return ⟨userType, t.userId, userRelation, relation, objectType, t.objectId⟩

/-- `check_access_with_contextual_tuples`: the namespaces of the contextual tuples are checked too,
then they are loaded. -/
def checkAccessWithContextualTuples (api : ApiEnv) (req : NamedRequest) (C : List TupleInput) :
    Except ApiError Bool := do
  let userType ← api.catalog.t req.userType
  let relation ← api.catalog.r req.relation
  let objectType ← api.catalog.t req.objectType
  api.checkNamespaceAccess objectType
  C.forM fun t => do
    let type ← api.catalog.t t.objectType
    if type ≠ objectType then api.checkNamespaceAccess type
  let ctx ← C.mapM api.catalog.ctxTuple
  (decideAccess { api.decide with check := (api.checkEnv req userType).withContextual ctx } none
    (req.question relation objectType)).mapError .halted

/-! ## Storing the contextual tuples -/

/-- The columns of a stored tuple that identify it. -/
def Tuple.row (t : Tuple) : CtxTuple :=
  ⟨t.userType, t.userId, t.userRelation, t.relation, t.objectType, t.objectId⟩

/-- A contextual tuple, stored without a condition. -/
def CtxTuple.stored (c : CtxTuple) : Tuple :=
  ⟨c.userType, c.userId, c.userRelation, c.relation, c.objectType, c.objectId, none, none, none⟩

@[simp] theorem CtxTuple.row_stored (c : CtxTuple) : c.stored.row = c := rfl

/-- The stored tuples after those of `ctx` are stored without a condition: a row of the same columns
may be replaced, no other row is lost, and no other row appears. -/
structure StoredWith (tuples : List Tuple) (ctx : List CtxTuple) (tuples' : List Tuple) : Prop where
  stored : ∀ c ∈ ctx, c.stored ∈ tuples'
  kept : ∀ t ∈ tuples, t ∈ tuples' ∨ t.row ∈ ctx
  only : ∀ t ∈ tuples', t ∈ tuples ∨ ∃ c ∈ ctx, t = c.stored

/-- The rows after an upsert. -/
def upsertAll (tuples : List Tuple) (ctx : List CtxTuple) : List Tuple :=
  (tuples.filter fun t => t.row ∉ ctx) ++ (ctx.map CtxTuple.stored).dedup

theorem storedWith_upsertAll (tuples : List Tuple) (ctx : List CtxTuple) :
    StoredWith tuples ctx (upsertAll tuples ctx) where
  stored c hc := by
    refine List.mem_append_right _ (List.mem_dedup.mpr ?_)
    exact List.mem_map_of_mem hc
  kept t ht := by
    by_cases hrow : t.row ∈ ctx
    · exact .inr hrow
    · exact .inl (List.mem_append_left _ (List.mem_filter.mpr ⟨ht, by simpa using hrow⟩))
  only t ht := by
    rcases List.mem_append.mp ht with ht | ht
    · exact .inl (List.mem_of_mem_filter ht)
    · obtain ⟨c, hc, rfl⟩ := List.mem_map.mp (List.mem_dedup.mp ht)
      exact .inr ⟨c, hc, rfl⟩

/-! ## A rule over stored and over contextual tuples -/

section Agreement

variable {env : CheckEnv} {ctx : List CtxTuple} {tuples' : List Tuple}

/-- What is asked of the columns of a tuple that passes is asked of the stored tuples and of the
contextual ones. -/
theorem StoredWith.exists_iff (h : StoredWith env.tuples ctx tuples') (a : Bool)
    (P : CtxTuple → Prop) :
    (∃ t ∈ tuples', P t.row ∧ Passes env a t) ↔
      (∃ t ∈ env.tuples, P t.row ∧ Passes env a t) ∨ ∃ c ∈ ctx, P c := by
  constructor
  · rintro ⟨t, ht, hP, hpass⟩
    rcases h.only t ht with ht | ⟨c, hc, rfl⟩
    · exact .inl ⟨t, ht, hP, hpass⟩
    · exact .inr ⟨c, hc, hP⟩
  · rintro (⟨t, ht, hP, hpass⟩ | ⟨c, hc, hP⟩)
    · rcases h.kept t ht with ht' | hrow
      · exact ⟨t, ht', hP, hpass⟩
      · -- the row that replaced it has no condition
        exact ⟨t.row.stored, h.stored _ hrow, hP, passes_of_unconditional rfl⟩
    · exact ⟨c.stored, h.stored c hc, hP, passes_of_unconditional rfl⟩

theorem hasCtxTuples_iff (P : CtxTuple → Prop) :
    ((env.withContextual ctx).hasCtxTuples = true ∧
      ∃ c ∈ (env.withContextual ctx).ctxTuples, P c) ↔ ∃ c ∈ ctx, P c := by
  show ((!ctx.isEmpty) = true ∧ ∃ c ∈ ctx, P c) ↔ _
  rw [and_iff_right_iff_imp]
  rintro ⟨c, hc, -⟩
  cases ctx with
  | nil => cases hc
  | cons d ctx => rfl

/-- The columns of a tuple that gives the subject the relation of the node. -/
def GrantsOn (env : CheckEnv) (n : Node) (c : CtxTuple) : Prop :=
  c.relation = n.relation ∧ c.objectType = n.objectType ∧
    (c.objectId = n.objectId ∨ c.objectId = wildcard) ∧ c.userType = env.userType ∧
    (c.userId = env.userId ∨ c.userId = wildcard) ∧ c.userRelation = none

theorem storedGrant_row_iff (hex : env.exclude = none) {a : Bool} {n : Node} :
    StoredGrant env a n ↔ ∃ t ∈ env.tuples, GrantsOn env n t.row ∧ Passes env a t := by
  refine exists_congr fun t => and_congr_right fun _ => ?_
  have hout : ¬ LeftOut env t := by simp [LeftOut, hex]
  simp only [hout, not_false_eq_true, and_true]
  exact ⟨fun ⟨h1, h2, h3, h4, h5, h6, h7⟩ => ⟨⟨h1, h2, h3, h4, h5, h6⟩, h7⟩,
    fun ⟨⟨h1, h2, h3, h4, h5, h6⟩, h7⟩ => ⟨h1, h2, h3, h4, h5, h6, h7⟩⟩

/-- Off the object wildcard, a contextual tuple grants where a stored one does. -/
theorem contextualGrant_row_iff (hw : ∀ c ∈ ctx, c.objectId ≠ wildcard) {n : Node} :
    ContextualGrant (env.withContextual ctx) n ↔ ∃ c ∈ ctx, GrantsOn env n c := by
  rw [ContextualGrant, hasCtxTuples_iff]
  refine exists_congr fun c => and_congr_right fun hc => ?_
  rw [GrantsOn, or_iff_left (hw c hc)]
  rfl

theorem ctxUsersetNode_eq {c : CtxTuple} (hw : c.objectId ≠ wildcard) (n : Node) :
    ctxUsersetNode n c = usersetNode n c.stored := by
  simp [ctxUsersetNode, usersetNode, CtxTuple.stored, hw]

/-- **A rule says the same** over the contextual tuples and over the stored ones, when no contextual
tuple is on the object wildcard. -/
theorem ruleHolds_stored_iff (hex : env.exclude = none) (hctx : env.hasCtxTuples = false)
    (h : StoredWith env.tuples ctx tuples') (hw : ∀ c ∈ ctx, c.objectId ≠ wildcard)
    (X : Set Question) (q : Question) (body : RuleBody) :
    RuleHolds (env.withStored tuples') X q body ↔ RuleHolds (env.withContextual ctx) X q body := by
  have hnone : ∀ P : CtxTuple → Prop, ¬ ((env.withStored tuples').hasCtxTuples = true ∧
      ∃ c ∈ (env.withStored tuples').ctxTuples, P c) := by
    rintro P ⟨hhas, -⟩
    exact Bool.false_ne_true (hctx.symm.trans hhas)
  cases body with
  | direct =>
    have hgrant : StoredGrant (env.withStored tuples') q.assume q.node ↔
        StoredGrant (env.withContextual ctx) q.assume q.node ∨
          ContextualGrant (env.withContextual ctx) q.node := by
      have hexs : (env.withStored tuples').exclude = none := hex
      have hexc : (env.withContextual ctx).exclude = none := hex
      rw [contextualGrant_row_iff hw, storedGrant_row_iff hexs, storedGrant_row_iff hexc]
      exact h.exists_iff q.assume (GrantsOn env q.node)
    have huserset : ∀ n', Userset (env.withStored tuples') q.assume q.node n' ↔
        Userset (env.withContextual ctx) q.assume q.node n' := by
      intro n'
      have hrows := h.exists_iff q.assume fun c => usersetNode q.node c.stored = some n'
      rw [Userset, Userset, or_iff_left (hnone _), hasCtxTuples_iff]
      refine hrows.trans (or_congr Iff.rfl (exists_congr fun c => and_congr_right fun hc => ?_))
      rw [ctxUsersetNode_eq (hw c hc)]
    rw [RuleHolds, RuleHolds, DirectHolds, DirectHolds, hgrant, or_assoc]
    refine or_congr Iff.rfl (or_congr Iff.rfl ?_)
    have hno : ¬ ContextualGrant (env.withStored tuples') q.node := hnone _
    rw [or_iff_right hno]
    exact exists_congr fun n' => and_congr_left fun _ => huserset n'
  | computed r => exact Iff.rfl
  | ttu ts c =>
    refine exists_congr fun n' => and_congr_left fun _ => ?_
    rw [Linked, Linked, or_iff_left (hnone _), hasCtxTuples_iff]
    -- the links are matched alike, on the object itself
    exact h.exists_iff q.assume fun t => linkNode q.node ts c t.stored = some n'

/-! ## The decisions -/

/-- The bodies of the two checks agree, whatever they are answered, when both return. -/
theorem checkAccessImpl_contextual_agree (hex : env.exclude = none)
    (hctx : env.hasCtxTuples = false) (h : StoredWith env.tuples ctx tuples')
    (hw : ∀ c ∈ ctx, c.objectId ≠ wildcard) (ans : Question → Bool) (q : Question) {b c : Bool}
    (hb : (checkAccessImpl (env.withContextual ctx) q).eval (fun r => .ok (ans r)) = .ok b)
    (hc : (checkAccessImpl (env.withStored tuples') q).eval (fun r => .ok (ans r)) = .ok c) :
    b = c := by
  set X : Set Question := {r | ans r = true} with hX
  have hagree : ∀ (a d : Bool) (C : Node → Prop),
      Agrees (fun q b => (.ok (ans q) : Except (Halt EngineError) Bool) = .ok b) X a d C := by
    intro a d C n _ hn
    obtain rfl : ans ⟨n, a⟩ = d := Except.ok.inj hn
    exact Iff.rfl
  -- the groups of either check, over the rules it evaluates
  have hgroups : ∀ (e : CheckEnv) (d : Bool), e.rules = env.rules →
      (checkAccessImpl e q).eval (fun r => .ok (ans r)) = .ok d →
      (d = true ↔ ∃ g, NewGroupPasses (fun ρ => RuleHolds e X q ρ.body)
        (fun ρ => ¬ RuleHolds e X q.flip ρ.body)
        ((orderedRules env.rules q.node.objectType q.node.relation).filter
          fun ρ => ρ.groupId = g)) := by
    intro e d hrules hd
    rw [← hrules]
    apply evalGroups_init_iff _ _ _ _ _ (Walk.eval_ok_iff.mp hd)
    · intro ρ _ hr
      exact evalRule_iff (hagree _ _ _) hr
    · intro ρ _ _ hr
      rw [← evalRule_iff (q := q.flip) (hagree _ _ _) hr]
      cases d <;> simp
    · refine (pairwise_orderedRules _ _ _).imp fun {ρ ρ'} hle => ?_
      rcases hle with hlt | ⟨heq, -⟩
      · exact hlt.le
      · exact heq.le
  have hrule := ruleHolds_stored_iff hex hctx h hw X
  rw [Bool.eq_iff_iff, hgroups (env.withContextual ctx) b rfl hb,
    hgroups (env.withStored tuples') c rfl hc]
  simp only [hrule]

/-- **The two checks decide alike** when both return: without a memo, and with one where the cuts
keep the missing-context switch. -/
theorem checkAccess_contextual_agree (hex : env.exclude = none) (hctx : env.hasCtxTuples = false)
    (h : StoredWith env.tuples ctx tuples') (hw : ∀ c ∈ ctx, c.objectId ≠ wildcard)
    {maxDepth : ℤ} {mode : MemoMode} {root : Question}
    (hmemo : mode = .off ∨ (CutsKeepSwitch (env.withContextual ctx) root ∧
      CutsKeepSwitch (env.withStored tuples') root)) {b c : Bool}
    (hb : checkAccess (env.withContextual ctx) maxDepth mode root = .ok b)
    (hc : checkAccess (env.withStored tuples') maxDepth mode root = .ok c) : b = c := by
  have hdecides : ∀ (e : CheckEnv) (d : Bool), mode = .off ∨ CutsKeepSwitch e root →
      checkAccess e maxDepth mode root = .ok d →
      Decides (fun q : Question => pathKey q.node) (checkAccessImpl e) [] root d := by
    intro e d hm hd
    rcases hm with rfl | hcuts
    · exact ⟨_, (checkAccess_off e maxDepth root).symm.trans hd⟩
    · exact decides_of_checkAccess hcuts hd
  obtain ⟨f, hf⟩ := hdecides _ b (hmemo.imp_right And.left) hb
  obtain ⟨g, hg⟩ := hdecides _ c (hmemo.imp_right And.right) hc
  exact search_agree (fun ans q b c => checkAccessImpl_contextual_agree hex hctx h hw ans q) hf hg

end Agreement

/-! ## A grant that is missed -/

section Missed

variable {env : CheckEnv} {q : Question}

/-- A relation with one rule that adds grants. -/
theorem evalGroups_one {eval : Question → RuleBody → Eval Bool} {ρ : Rule} (hop : ρ.groupOp = .or)
    (hg : 0 ≤ ρ.groupId) :
    evalGroups eval q .init [ρ] = do if ← eval q ρ.body then return true else return false := by
  have hne : ρ.groupId ≠ -1 := by omega
  have hand : (GroupOp.or == GroupOp.and) = false := rfl
  have hexc : (GroupOp.or == GroupOp.exclusion) = false := rfl
  simp [evalGroups, GroupState.init, GroupState.start, GroupState.finalizes, hop, hne, hand, hexc]

/-- A relation with two rules that add grants, each in a group of its own. -/
theorem evalGroups_two {eval : Question → RuleBody → Eval Bool} {ρ ρ' : Rule}
    (hop : ρ.groupOp = .or) (hop' : ρ'.groupOp = .or) (hg : 0 ≤ ρ.groupId)
    (hlt : ρ.groupId < ρ'.groupId) :
    evalGroups eval q .init [ρ, ρ'] = do
      if ← eval q ρ.body then return true
      if ← eval q ρ'.body then return true else return false := by
  have hne : ρ.groupId ≠ -1 := by omega
  have hne' : ρ'.groupId ≠ ρ.groupId := by omega
  have hand : (GroupOp.or == GroupOp.and) = false := rfl
  have hexc : (GroupOp.or == GroupOp.exclusion) = false := rfl
  simp [evalGroups, GroupState.init, GroupState.start, GroupState.finalizes, hop, hop', hne, hne',
    hand, hexc]

/-- A loop whose rows name no node asks nothing. -/
theorem followRows_none {a : Bool} {rows : List Tuple} {target : Tuple → Option Node}
    (h : ∀ t ∈ rows, target t = none) : followRows env a rows target = .done false := by
  induction rows with
  | nil => rfl
  | cons t rows ih =>
    rw [followRows, Walk.any, h t List.mem_cons_self]
    exact ih fun t ht => h t (.tail _ ht)

theorem followCtxRows_none {a : Bool} {target : CtxTuple → Option Node}
    (h : ∀ c ∈ env.ctxTuples, target c = none) : followCtxRows env a target = .done false := by
  unfold followCtxRows
  split
  · generalize env.ctxTuples = rows at h
    induction rows with
    | nil => rfl
    | cons c rows ih =>
      rw [Walk.any, h c List.mem_cons_self]
      exact ih fun c hc => h c (.tail _ hc)
  · rfl

/-- Without conditions, a probe asks for a row. -/
theorem probe_unconditional (hunc : ∀ t ∈ env.tuples, t.conditionId = none) {a : Bool}
    {row : Tuple → Bool} : probe env a row = .done (env.tuples.any row) := by
  have hfilter : env.tuples.filter (fun t => row t && t.conditionId.isSome) = [] := by
    rw [List.filter_eq_nil_iff]
    intro t ht
    simp [hunc t ht]
  have hany : (env.tuples.any fun t => row t && t.conditionId.isNone) = env.tuples.any row := by
    rw [Bool.eq_iff_iff, List.any_eq_true, List.any_eq_true]
    refine exists_congr fun t => and_congr_right fun ht => ?_
    simp [hunc t ht]
  rw [probe, hany, hfilter]
  cases env.tuples.any row <;> rfl

/-- Without tuples on the object and on the object wildcard, a direct rule gives nothing. -/
theorem evalDirect_none (hunc : ∀ t ∈ env.tuples, t.conditionId = none)
    (hrow : ∀ t ∈ env.tuples, t.relation = q.node.relation →
      t.objectId ≠ q.node.objectId ∧ t.objectId ≠ wildcard)
    (hctx : ∀ c ∈ env.ctxTuples, c.objectId ≠ q.node.objectId) :
    evalDirect env q = .done false := by
  have hprobe : ∀ o ids, o = q.node.objectId ∨ o = wildcard →
      env.tuples.any (directRow env q.node o ids) = false := by
    intro o ids ho
    rw [List.any_eq_false]
    intro t ht hdirect
    obtain ⟨-, hto, hr, -⟩ := directRow_iff.mp hdirect
    obtain ⟨hne, hne'⟩ := hrow t ht hr
    rcases ho with rfl | rfl
    · exact hne hto
    · exact hne' hto
  have hcheck : checkCtxDirect env q.node = false := by
    rw [checkCtxDirect, List.any_eq_false]
    intro c hc
    simp [hctx c hc]
  have husersets : ∀ p : Tuple → Bool,
      followRows env q.assume (env.tuples.filter p) (usersetNode q.node) = .done false := by
    intro p
    refine followRows_none fun t ht => ?_
    have hnot : ¬ (t.objectType = q.node.objectType ∧ t.objectId ∈ [q.node.objectId, wildcard] ∧
        t.relation = q.node.relation) := by
      rintro ⟨-, ho, hr⟩
      obtain ⟨hne, hne'⟩ := hrow t (List.mem_of_mem_filter ht) hr
      rcases List.mem_pair.mp ho with ho | ho
      · exact hne ho
      · exact hne' ho
    rw [usersetNode, if_neg hnot]
  have hctxUsersets : followCtxRows env q.assume (ctxUsersetNode q.node) = .done false := by
    refine followCtxRows_none fun c hc => ?_
    simp [ctxUsersetNode, hctx c hc]
  have hskip : ∀ s o ids, o = q.node.objectId ∨ o = wildcard →
      probeUnless s env q.assume (directRow env q.node o ids) = .done false := by
    intro s o ids ho
    rw [probeUnless, probe_unconditional hunc, hprobe o ids ho]
    cases s <;> rfl
  simp only [evalDirect, hskip _ _ _ (.inl rfl), probe_unconditional hunc, hprobe _ _ (.inr rfl),
    hcheck, husersets, hctxUsersets, Walk.bind_done, Bool.and_false, Bool.false_eq_true, if_false]

/-- Without links of the object, a tuple-to-userset rule gives nothing. -/
theorem evalTtu_none {ts c : ℕ}
    (hrow : ∀ t ∈ env.tuples, t.relation = ts → t.objectId ≠ q.node.objectId)
    (hctx : ∀ c ∈ env.ctxTuples, c.objectId ≠ q.node.objectId) :
    evalTtu env q ts c = .done false := by
  have hlinks : followRows env q.assume env.tuples (linkNode q.node ts c) = .done false := by
    refine followRows_none fun t ht => if_neg ?_
    rintro ⟨-, ho, hr, -⟩
    exact hrow t ht hr ho
  have hctxLinks : followCtxRows env q.assume (ctxLinkNode q.node ts c) = .done false := by
    refine followCtxRows_none fun t ht => if_neg ?_
    rintro ⟨-, ho, -⟩
    exact hctx t ht ho
  rw [evalTtu, hlinks, hctxLinks]
  rfl

/-- A probe that `_eval_direct` does not skip, when no tuple is left out. -/
theorem probeUnless_unconditional (hunc : ∀ t ∈ env.tuples, t.conditionId = none)
    {skip : Bool} (hskip : skip = false) {a : Bool} {row : Tuple → Bool} :
    probeUnless skip env a row = .done (env.tuples.any row) := by
  rw [probeUnless, hskip, ← probe_unconditional hunc]
  rfl

/-- A tuple of the subject on the object or on the object wildcard decides a direct rule. -/
theorem evalDirect_found (hunc : ∀ t ∈ env.tuples, t.conditionId = none) (hex : env.exclude = none)
    {t : Tuple} (ht : t ∈ env.tuples)
    (hrow : directRow env q.node q.node.objectId [env.userId] t = true ∨
      directRow env q.node wildcard [env.userId, wildcard] t = true) :
    evalDirect env q = .done true := by
  have hskip : skipDirect env q.node = false := by simp [skipDirect, hex]
  have hskip' : skipWildcard env q.node = false := by simp [skipWildcard, hex]
  simp only [evalDirect, probeUnless_unconditional hunc hskip, probeUnless_unconditional hunc hskip',
    probe_unconditional hunc, Walk.bind_done]
  rcases hrow with hrow | hrow
  · have hany := List.any_eq_true.mpr ⟨t, ht, hrow⟩
    rw [hany]
    rfl
  · have hany := List.any_eq_true.mpr ⟨t, ht, hrow⟩
    rw [hany]
    -- one of the first two probes may have found a tuple already
    split
    · rfl
    · split
      · rfl
      · rfl

/-- A userset on the first row that holds decides a direct rule. -/
theorem evalDirect_first_userset (hunc : ∀ t ∈ env.tuples, t.conditionId = none)
    (hex : env.exclude = none) {t : Tuple} {rows : List Tuple} (hrows : env.tuples = t :: rows)
    {n : Node} (hn : usersetNode q.node t = some n)
    {h : Question → Except (Halt EngineError) Bool} (hans : h ⟨n, q.assume⟩ = .ok true) :
    (evalDirect env q).eval h = .ok true := by
  have hskip : skipDirect env q.node = false := by simp [skipDirect, hex]
  have hskip' : skipWildcard env q.node = false := by simp [skipWildcard, hex]
  have hfilter : env.tuples.filter (fun t => t.conditionId.isNone) = t :: rows := by
    rw [← hrows, List.filter_eq_self]
    intro t ht
    simp [hunc t ht]
  have hcond : t.conditionId = none := hunc t (by simp [hrows])
  simp only [evalDirect, probeUnless_unconditional hunc hskip, probeUnless_unconditional hunc hskip',
    probe_unconditional hunc, Walk.bind_done, hfilter]
  split
  · rfl
  · split
    · rfl
    · split
      · rfl
      · split
        · rfl
        · rw [followRows, Walk.any]
          simp [hn, hcond, evalCondition, Walk.lift, Walk.query, Walk.eval_ask, hans]

theorem eval_orElse_true {x y : Eval Bool} {h : Question → Except (Halt EngineError) Bool}
    (hx : x.eval h = .ok true) :
    (x >>= fun c => if c = true then pure true else y).eval h = .ok true := by
  induction x with
  | done b =>
    obtain rfl : b = true := Except.ok.inj hx
    rfl
  | raise e => cases hx
  | ask q k ih =>
    obtain ⟨b, hb, hk⟩ := Walk.eval_ask_ok.mp hx
    exact Walk.eval_ask_ok.mpr ⟨b, hb, ih b hk⟩

/-- A link that holds decides a tuple-to-userset rule whose links all name its node. -/
theorem evalTtu_linked (hunc : ∀ t ∈ env.tuples, t.conditionId = none) {ts c : ℕ} {n : Node}
    {t : Tuple} (ht : t ∈ env.tuples) (hn : linkNode q.node ts c t = some n)
    (hall : ∀ t ∈ env.tuples, ∀ n', linkNode q.node ts c t = some n' → n' = n)
    {h : Question → Except (Halt EngineError) Bool} (hans : h ⟨n, q.assume⟩ = .ok true) :
    (evalTtu env q ts c).eval h = .ok true := by
  refine eval_orElse_true ?_
  -- the loop passes the rows that are no link and stops at the first link
  have hloop : ∀ rows : List Tuple, (∀ t ∈ rows, t.conditionId = none) →
      (∀ t ∈ rows, ∀ n', linkNode q.node ts c t = some n' → n' = n) → t ∈ rows →
      (followRows env q.assume rows (linkNode q.node ts c)).eval h = .ok true := by
    intro rows
    induction rows with
    | nil => exact fun _ _ ht => absurd ht List.not_mem_nil
    | cons s rows ih =>
      intro hunc hall ht
      cases hs : linkNode q.node ts c s with
      | some n' =>
        obtain rfl := hall s List.mem_cons_self n' hs
        have hcond := hunc s List.mem_cons_self
        rw [followRows, Walk.any]
        simp [hs, hcond, evalCondition, Walk.lift, Walk.query, Walk.eval_ask, hans]
      | none =>
        have hmem : t ∈ rows := by
          rcases List.mem_cons.mp ht with rfl | ht
          · rw [hn] at hs
            cases hs
          · exact ht
        rw [followRows, Walk.any, hs]
        exact ih (fun t ht => hunc t (.tail _ ht)) (fun t ht => hall t (.tail _ ht)) hmem
  exact hloop env.tuples hunc hall ht

/-! ### The two stores -/

/-- Checks of a subject over these rules and tuples, without conditions. -/
def plainCheck (rules : List Rule) (tuples : List Tuple) (userType : ℕ) (userId : String) :
    CheckEnv where
  platform := ⟨fun _ _ _ _ => .failed, fun _ => 0, fun _ => ""⟩
  maxContextBytes := 262144
  conditions := []
  evalClock := 0
  requestContext := none
  rules := rules
  tuples := tuples
  ctxTuples := []
  hasCtxTuples := false
  exclude := none
  userType := userType
  userId := userId

/-- The subject of the contextual tuple, where its relation has a direct rule. -/
def grantCheck (c : CtxTuple) : CheckEnv :=
  plainCheck [⟨c.objectType, c.relation, .direct, 0, .or, false⟩] [] c.userType c.userId

/-- A member of the userset of the contextual tuple: the userset has the members that the relation
`m` has on what the relation `l` links to its object. -/
def memberCheck (c : CtxTuple) (r l m : ℕ) : CheckEnv :=
  plainCheck [⟨c.objectType, c.relation, .direct, 1, .or, false⟩,
      ⟨c.userType, r, .ttu l m, 0, .or, false⟩, ⟨c.userType, m, .direct, 0, .or, false⟩]
    [⟨c.userType, "team", none, l, c.userType, c.userId, none, none, none⟩,
      ⟨c.userType, "ann", none, m, c.userType, "team", none, none, none⟩] c.userType "ann"

/-- A question at another node than those on the path is not cut. -/
theorem search_fresh {body : Question → Eval Bool} {P : List Question}
    (hP : ∀ p ∈ P, p.node ≠ q.node) (f : ℕ) :
    search (fun q => pathKey q.node) body (f + 1) P q =
      (body q).eval (search (fun q => pathKey q.node) body f (q :: P)) := by
  refine search_open (fun hmem => ?_) f
  obtain ⟨p, hp, hkey⟩ := List.mem_map.mp hmem
  exact hP p hp (pathKey_injective hkey)

/-- A contextual tuple of a subject on the object wildcard gives nothing to an object, the stored one
does. -/
theorem grantCheck_missed {ctx : List CtxTuple} {c : CtxTuple} (hc : c ∈ ctx)
    (hw : c.objectId = wildcard) (hur : c.userRelation = none) {o : String}
    (ho : ∀ c ∈ ctx, c.objectId ≠ o) {tuples' : List Tuple} (h : StoredWith [] ctx tuples') :
    checkAccess ((grantCheck c).withContextual ctx) 32 .off ⟨⟨c.relation, c.objectType, o⟩, false⟩ =
        .ok false ∧
      checkAccess ((grantCheck c).withStored tuples') 32 .off
        ⟨⟨c.relation, c.objectType, o⟩, false⟩ = .ok true := by
  have hunc : ∀ t ∈ tuples', t.conditionId = none := by
    intro t ht
    rcases h.only t ht with ht | ⟨c, -, rfl⟩
    · cases ht
    · rfl
  -- the relation has its direct rule only
  have hbody : ∀ (env : CheckEnv) (b : Bool), env.rules = (grantCheck c).rules →
      evalDirect env ⟨⟨c.relation, c.objectType, o⟩, false⟩ = .done b →
      checkAccess env 32 .off ⟨⟨c.relation, c.objectType, o⟩, false⟩ = .ok b := by
    intro env b hrules hb
    have hlevels : levels 32 = 32 + 1 := by decide
    rw [checkAccess_off, hlevels, search_fresh fun p hp => absurd hp List.not_mem_nil]
    have hordered : orderedRules env.rules c.objectType c.relation =
        [⟨c.objectType, c.relation, .direct, 0, .or, false⟩] := by
      rw [hrules]
      simp [grantCheck, plainCheck, orderedRules]
    rw [checkAccessImpl, hordered, evalGroups_one rfl le_rfl]
    simp only [evalRule, hb]
    cases b <;> rfl
  constructor
  · refine hbody _ _ rfl (evalDirect_none ?_ ?_ ho)
    · exact fun t ht => absurd ht List.not_mem_nil
    · exact fun t ht => absurd ht List.not_mem_nil
  · refine hbody _ _ rfl (evalDirect_found hunc rfl (h.stored c hc) (.inr ?_))
    exact directRow_iff.mpr ⟨rfl, hw, rfl, rfl, List.mem_cons_self, hur⟩

section Member

variable {c : CtxTuple} {r l m : ℕ}

/-- The rules of the granted relation: its direct rule, after the rule of the userset if that is the
same relation. -/
theorem memberCheck_granted (hm : m ≠ c.relation) :
    orderedRules (memberCheck c r l m).rules c.objectType c.relation =
        [⟨c.objectType, c.relation, .direct, 1, .or, false⟩] ∨
      orderedRules (memberCheck c r l m).rules c.objectType c.relation =
        [⟨c.userType, r, .ttu l m, 0, .or, false⟩,
          ⟨c.objectType, c.relation, .direct, 1, .or, false⟩] := by
  by_cases hsame : c.userType = c.objectType ∧ r = c.relation
  · right
    simp [memberCheck, plainCheck, orderedRules, hsame.1, hsame.2, hm, Rule.order]
  · left
    simp [memberCheck, plainCheck, orderedRules, hsame, hm]

/-- The rules of the userset: the rule over the link, before the direct rule if that is the same
relation. -/
theorem memberCheck_userset (hm : m ≠ r) :
    orderedRules (memberCheck c r l m).rules c.userType r =
        [⟨c.userType, r, .ttu l m, 0, .or, false⟩] ∨
      orderedRules (memberCheck c r l m).rules c.userType r =
        [⟨c.userType, r, .ttu l m, 0, .or, false⟩,
          ⟨c.objectType, c.relation, .direct, 1, .or, false⟩] := by
  by_cases hsame : c.objectType = c.userType ∧ c.relation = r
  · right
    simp [memberCheck, plainCheck, orderedRules, hsame.1, hsame.2, hm, Rule.order]
  · left
    simp [memberCheck, plainCheck, orderedRules, hsame, hm]

theorem memberCheck_member (hm : m ≠ c.relation) (hm' : m ≠ r) :
    orderedRules (memberCheck c r l m).rules c.userType m =
      [⟨c.userType, m, .direct, 0, .or, false⟩] := by
  simp [memberCheck, plainCheck, orderedRules, hm.symm, hm'.symm]

/-- The member of the userset is not given an object through the contextual tuple. -/
theorem memberCheck_contextual {ctx : List CtxTuple} (hl : l ≠ c.relation) (hm : m ≠ c.relation)
    (hml : m ≠ l) {o : String} (ho : ∀ c ∈ ctx, c.objectId ≠ o) (hou : c.userId ≠ o) :
    checkAccess ((memberCheck c r l m).withContextual ctx) 32 .off
      ⟨⟨c.relation, c.objectType, o⟩, false⟩ = .ok false := by
  have hlevels : levels 32 = 32 + 1 := by decide
  rw [checkAccess_off, hlevels, search_fresh fun p hp => absurd hp List.not_mem_nil]
  have hdirect : evalDirect ((memberCheck c r l m).withContextual ctx)
      ⟨⟨c.relation, c.objectType, o⟩, false⟩ = .done false := by
    refine evalDirect_none ?_ ?_ ho
    · intro t ht
      simp only [memberCheck, plainCheck, CheckEnv.withContextual, List.mem_pair] at ht
      rcases ht with rfl | rfl <;> rfl
    · intro t ht hr
      simp only [memberCheck, plainCheck, CheckEnv.withContextual, List.mem_pair] at ht
      rcases ht with rfl | rfl
      · exact absurd hr hl
      · exact absurd hr hm
  have httu : evalTtu ((memberCheck c r l m).withContextual ctx)
      ⟨⟨c.relation, c.objectType, o⟩, false⟩ l m = .done false := by
    refine evalTtu_none ?_ ho
    intro t ht hr
    simp only [memberCheck, plainCheck, CheckEnv.withContextual, List.mem_pair] at ht
    rcases ht with rfl | rfl
    · exact hou
    · exact absurd hr hml
  rw [checkAccessImpl]
  rcases memberCheck_granted (r := r) (l := l) hm with hrules | hrules
  · show (evalGroups _ _ _ (orderedRules (memberCheck c r l m).rules _ _)).eval _ = _
    rw [hrules, evalGroups_one rfl zero_le_one]
    simp [evalRule, hdirect]
  · show (evalGroups _ _ _ (orderedRules (memberCheck c r l m).rules _ _)).eval _ = _
    rw [hrules, evalGroups_two rfl rfl le_rfl zero_lt_one]
    simp [evalRule, hdirect, httu]

/-- The tuples of the store with the contextual ones, the one on the object wildcard first. -/
def memberTuples (c : CtxTuple) (r l m : ℕ) (ctx : List CtxTuple) : List Tuple :=
  c.stored :: (upsertAll (memberCheck c r l m).tuples ctx).filter (· ≠ c.stored)

theorem storedWith_memberTuples {ctx : List CtxTuple} (hc : c ∈ ctx) :
    StoredWith (memberCheck c r l m).tuples ctx (memberTuples c r l m ctx) where
  stored d hd := by
    by_cases heq : d.stored = c.stored
    · rw [heq]
      exact List.mem_cons_self
    · refine List.mem_cons_of_mem _ (List.mem_filter.mpr ⟨?_, by simpa using heq⟩)
      exact (storedWith_upsertAll _ _).stored d hd
  kept t ht := by
    rcases (storedWith_upsertAll _ ctx).kept t ht with hmem | hrow
    · by_cases heq : t = c.stored
      · rw [heq]
        exact .inl List.mem_cons_self
      · exact .inl (List.mem_cons_of_mem _ (List.mem_filter.mpr ⟨hmem, by simpa using heq⟩))
    · exact .inr hrow
  only t ht := by
    rcases List.mem_cons.mp ht with rfl | ht
    · exact .inr ⟨c, hc, rfl⟩
    · exact (storedWith_upsertAll _ _).only t (List.mem_of_mem_filter ht)

/-- **The member is given every object** when the contextual tuple is stored. -/
theorem memberCheck_stored {ctx : List CtxTuple} (hc : c ∈ ctx) (hw : c.objectId = wildcard)
    (hur : c.userRelation = some r) (hl : ∀ c ∈ ctx, c.relation ≠ l) (hlc : ∀ c ∈ ctx, c.relation ≠ m)
    (hmr : m ≠ r) (hml : m ≠ l) {o : String} (ho : ∀ c ∈ ctx, c.objectId ≠ o) (hou : c.userId ≠ o) :
    checkAccess ((memberCheck c r l m).withStored (memberTuples c r l m ctx)) 32 .off
      ⟨⟨c.relation, c.objectType, o⟩, false⟩ = .ok true := by
  set env := (memberCheck c r l m).withStored (memberTuples c r l m ctx) with henv
  have hstored := storedWith_memberTuples (r := r) (l := l) (m := m) hc
  have hmc : m ≠ c.relation := (hlc c hc).symm
  have hlevels : levels 32 = 30 + 1 + 1 + 1 := by decide
  have hrow : ∀ t ∈ env.tuples,
      t = ⟨c.userType, "team", none, l, c.userType, c.userId, none, none, none⟩ ∨
      t = ⟨c.userType, "ann", none, m, c.userType, "team", none, none, none⟩ ∨
      ∃ d ∈ ctx, t = d.stored := by
    intro t ht
    rcases hstored.only t ht with ht | ht
    · exact (List.mem_pair.mp ht).imp_right .inl
    · exact .inr (.inr ht)
  have hunc : ∀ t ∈ env.tuples, t.conditionId = none := by
    intro t ht
    rcases hrow t ht with rfl | rfl | ⟨d, -, rfl⟩ <;> rfl
  -- the rows of the store itself are not among those of the request
  have hlink : ⟨c.userType, "team", none, l, c.userType, c.userId, none, none, none⟩ ∈ env.tuples := by
    refine (hstored.kept _ (by simp [memberCheck, plainCheck])).resolve_right fun hmem => ?_
    exact hl _ hmem rfl
  have hmember : ⟨c.userType, "ann", none, m, c.userType, "team", none, none, none⟩ ∈ env.tuples := by
    refine (hstored.kept _ (by simp [memberCheck, plainCheck])).resolve_right fun hmem => ?_
    exact hlc _ hmem rfl
  set root : Question := ⟨⟨c.relation, c.objectType, o⟩, false⟩
  set userset : Question := ⟨⟨r, c.userType, c.userId⟩, false⟩
  set member : Question := ⟨⟨m, c.userType, "team"⟩, false⟩
  -- the member's own tuple
  have hteam : search (fun q => pathKey q.node) (checkAccessImpl env) (30 + 1) [userset, root] member =
      .ok true := by
    rw [search_fresh (q := member)]
    · have hfound : evalDirect env member = .done true := by
        refine evalDirect_found hunc rfl hmember (.inl ?_)
        exact directRow_iff.mpr ⟨rfl, rfl, rfl, rfl, List.mem_cons_self, rfl⟩
      show (evalGroups _ _ _ (orderedRules (memberCheck c r l m).rules c.userType m)).eval _ = _
      rw [memberCheck_member hmc hmr, evalGroups_one rfl le_rfl]
      simp [evalRule, hfound]
    · intro p hp hnode
      rcases List.mem_pair.mp hp with rfl | rfl
      · exact hmr (congrArg Node.relation hnode).symm
      · exact hmc (congrArg Node.relation hnode).symm
  -- the userset, through the link
  have huserset : search (fun q => pathKey q.node) (checkAccessImpl env) (30 + 1 + 1) [root] userset =
      .ok true := by
    rw [search_fresh (q := userset)]
    · have hlinked : (evalTtu env userset l m).eval
          (search (fun q => pathKey q.node) (checkAccessImpl env) (30 + 1) [userset, root]) =
            .ok true := by
        apply evalTtu_linked hunc hlink (n := member.node) _ _ hteam
        · simp [linkNode, userset, member]
        · intro t ht n' hn'
          rcases hrow t ht with rfl | rfl | ⟨d, hd, rfl⟩
          · simpa [linkNode, userset, member, eq_comm] using hn'
          · simp [linkNode, hml] at hn'
          · simp [linkNode, CtxTuple.stored, hl d hd] at hn'
      rw [checkAccessImpl]
      rcases memberCheck_userset (c := c) (l := l) hmr with hrules | hrules
      · show (evalGroups _ _ _ (orderedRules (memberCheck c r l m).rules _ _)).eval _ = _
        rw [hrules, evalGroups_one rfl le_rfl]
        exact eval_orElse_true hlinked
      · show (evalGroups _ _ _ (orderedRules (memberCheck c r l m).rules _ _)).eval _ = _
        rw [hrules, evalGroups_two rfl rfl le_rfl zero_lt_one]
        exact eval_orElse_true hlinked
    · intro p hp hnode
      obtain rfl := List.mem_singleton.mp hp
      exact hou (congrArg Node.objectId hnode).symm
  have hdirect : (evalDirect env root).eval
      (search (fun q => pathKey q.node) (checkAccessImpl env) (30 + 1 + 1) [root]) = .ok true := by
    refine evalDirect_first_userset hunc rfl rfl (n := userset.node) ?_ huserset
    simp [usersetNode, CtxTuple.stored, hw, hur, root, userset]
  have httu : evalTtu env root l m = .done false := by
    refine evalTtu_none ?_ fun d hd => absurd hd List.not_mem_nil
    intro t ht hr
    rcases hrow t ht with rfl | rfl | ⟨d, hd, rfl⟩
    · exact hou
    · exact absurd hr hml
    · exact ho d hd
  rw [checkAccess_off, hlevels, search_fresh (q := root) fun p hp => absurd hp List.not_mem_nil]
  rw [checkAccessImpl]
  rcases memberCheck_granted (c := c) (r := r) (l := l) hmc with hrules | hrules
  · show (evalGroups _ _ _ (orderedRules (memberCheck c r l m).rules _ _)).eval _ = _
    rw [hrules, evalGroups_one rfl zero_le_one]
    exact eval_orElse_true hdirect
  · show (evalGroups _ _ _ (orderedRules (memberCheck c r l m).rules _ _)).eval _ = _
    rw [hrules, evalGroups_two rfl rfl le_rfl zero_lt_one]
    simp only [evalRule, httu, Walk.bind_done, Bool.false_eq_true, if_false]
    exact eval_orElse_true hdirect

end Member


end Missed

/-! ## The entry points on a request -/

/-- The store of the entry points with other stored tuples. -/
def ApiEnv.withStored (api : ApiEnv) (tuples : List Tuple) : ApiEnv :=
  { api with decide := { api.decide with check := api.decide.check.withStored tuples } }

/-- The memo does not change the two checks of a request: it is off, or their cuts keep the
missing-context switch. -/
def ApiEnv.MemoSafe (api : ApiEnv) (req : NamedRequest) (ctx : List CtxTuple)
    (tuples' : List Tuple) : Prop :=
  api.decide.mode = .off ∨ ∀ userType relation objectType,
    api.catalog.t req.userType = .ok userType → api.catalog.r req.relation = .ok relation →
    api.catalog.t req.objectType = .ok objectType →
    CutsKeepSwitch ((api.checkEnv req userType).withContextual ctx)
        (req.question relation objectType) ∧
      CutsKeepSwitch ((api.checkEnv req userType).withStored tuples')
        (req.question relation objectType)

/-- **The list counts as if it were stored**: on every store that knows its names, whenever the check
with the contextual tuples and the check after they are stored both answer a request, they answer the
same. -/
def LikeStored (C : List TupleInput) : Prop :=
  ∀ (api : ApiEnv) (req : NamedRequest) (ctx : List CtxTuple) (tuples' : List Tuple),
    C.mapM api.catalog.ctxTuple = .ok ctx → StoredWith api.decide.check.tuples ctx tuples' →
    api.MemoSafe req ctx tuples' → ∀ b c, checkAccessWithContextualTuples api req C = .ok b →
      checkAccessWithContext (api.withStored tuples') req = .ok c → b = c

theorem ok_of_bind {ε α β : Type} {x : Except ε α} {f : α → Except ε β} {b : β}
    (h : x >>= f = .ok b) : ∃ a, x = .ok a ∧ f a = .ok b := by
  cases x with
  | error e => cases h
  | ok a => exact ⟨a, rfl, h⟩

theorem ok_of_mapError {ε ε' α : Type} {x : Except ε α} {f : ε → ε'} {a : α}
    (h : x.mapError f = .ok a) : x = .ok a := by
  cases x with
  | error e => cases h
  | ok a' =>
    cases h
    rfl

/-- What an answer of the check with contextual tuples comes from. -/
theorem decided_of_contextual {api : ApiEnv} {req : NamedRequest} {C : List TupleInput}
    {ctx : List CtxTuple} (hload : C.mapM api.catalog.ctxTuple = .ok ctx) {b : Bool}
    (hb : checkAccessWithContextualTuples api req C = .ok b) : ∃ userType relation objectType,
      api.catalog.t req.userType = .ok userType ∧ api.catalog.r req.relation = .ok relation ∧
      api.catalog.t req.objectType = .ok objectType ∧
      decideAccess { api.decide with check := (api.checkEnv req userType).withContextual ctx } none
        (req.question relation objectType) = .ok b := by
  obtain ⟨userType, hu, hb⟩ := ok_of_bind hb
  obtain ⟨relation, hr, hb⟩ := ok_of_bind hb
  obtain ⟨objectType, ho, hb⟩ := ok_of_bind hb
  obtain ⟨-, -, hb⟩ := ok_of_bind hb
  obtain ⟨-, -, hb⟩ := ok_of_bind hb
  obtain ⟨ctx', hctx', hb⟩ := ok_of_bind hb
  obtain rfl : ctx = ctx' := Except.ok.inj (hload.symm.trans hctx')
  exact ⟨userType, relation, objectType, hu, hr, ho, ok_of_mapError hb⟩

/-- What an answer of the check without contextual tuples comes from. -/
theorem decided_of_context {api : ApiEnv} {req : NamedRequest} {b : Bool}
    (hb : checkAccessWithContext api req = .ok b) : ∃ userType relation objectType,
      api.catalog.t req.userType = .ok userType ∧ api.catalog.r req.relation = .ok relation ∧
      api.catalog.t req.objectType = .ok objectType ∧
      decideAccess { api.decide with check := api.checkEnv req userType } none
        (req.question relation objectType) = .ok b := by
  obtain ⟨objectType, ho, hb⟩ := ok_of_bind hb
  obtain ⟨-, -, hb⟩ := ok_of_bind hb
  obtain ⟨userType, hu, hb⟩ := ok_of_bind hb
  obtain ⟨relation, hr, hb⟩ := ok_of_bind hb
  exact ⟨userType, relation, objectType, hu, hr, ho, ok_of_mapError hb⟩

/-- Two decisions whose checks agree where both return. -/
theorem decideAccess_agree {env env' : DecideEnv} {q : Question} (hgates : env.gates = env'.gates)
    (hT : env.check.userType = env'.check.userType) (hu : env.check.userId = env'.check.userId)
    (hcheck : ∀ b c, checkAccess { env.check with exclude := none } env.maxDepth env.mode q = .ok b →
      checkAccess { env'.check with exclude := none } env'.maxDepth env'.mode q = .ok c → b = c)
    {b c : Bool} (hb : decideAccess env none q = .ok b) (hc : decideAccess env' none q = .ok c) :
    b = c := by
  unfold decideAccess at hb hc
  rw [hgates, hT, hu] at hb
  cases hx : checkAccess { env.check with exclude := none } env.maxDepth env.mode q with
  | error e =>
    rw [hx] at hb
    cases hb
  | ok x =>
    cases hy : checkAccess { env'.check with exclude := none } env'.maxDepth env'.mode q with
    | error e =>
      rw [hy] at hc
      cases hc
    | ok y =>
      obtain rfl := hcheck x y hx hy
      rw [hx] at hb
      rw [hy] at hc
      exact Except.ok.inj (hb.symm.trans hc)

/-- The columns of a loaded tuple are those of the tuple of the request. -/
theorem objectId_of_ctxTuple {cat : StoreCatalog} {t : TupleInput} {c : CtxTuple}
    (h : cat.ctxTuple t = .ok c) : c.objectId = t.objectId := by
  obtain ⟨userType, -, h⟩ := ok_of_bind h
  obtain ⟨userRelation, -, h⟩ := ok_of_bind h
  obtain ⟨relation, -, h⟩ := ok_of_bind h
  obtain ⟨objectType, -, h⟩ := ok_of_bind h
  rw [← Except.ok.inj h]

theorem exists_of_mapM {ε α β : Type} {f : α → Except ε β} {l : List α} {l' : List β}
    (h : l.mapM f = .ok l') {b : β} (hb : b ∈ l') : ∃ a ∈ l, f a = .ok b := by
  induction l generalizing l' with
  | nil =>
    obtain rfl : [] = l' := Except.ok.inj h
    cases hb
  | cons a l ih =>
    rw [List.mapM_cons] at h
    obtain ⟨c, hc, h⟩ := ok_of_bind h
    obtain ⟨cs, hcs, h⟩ := ok_of_bind h
    obtain rfl : c :: cs = l' := Except.ok.inj h
    rcases List.mem_cons.mp hb with rfl | hb
    · exact ⟨a, List.mem_cons_self, hc⟩
    · obtain ⟨a', ha', hf⟩ := ih hcs hb
      exact ⟨a', List.mem_cons_of_mem a ha', hf⟩

/-- **A list without the object wildcard counts as if it were stored.** -/
theorem likeStored_of_no_wildcard {C : List TupleInput} (hw : ∀ t ∈ C, t.objectId ≠ wildcard) :
    LikeStored C := by
  intro api req ctx tuples' hload hstored hmemo b c hb hc
  obtain ⟨u, r, o, hu, hr, ho, hb⟩ := decided_of_contextual hload hb
  obtain ⟨u', r', o', hu', hr', ho', hc⟩ := decided_of_context hc
  obtain rfl : u = u' := Except.ok.inj (hu.symm.trans hu')
  obtain rfl : r = r' := Except.ok.inj (hr.symm.trans hr')
  obtain rfl : o = o' := Except.ok.inj (ho.symm.trans ho')
  have hctx : ∀ d ∈ ctx, d.objectId ≠ wildcard := by
    intro d hd
    obtain ⟨t, ht, htd⟩ := exists_of_mapM hload hd
    rw [objectId_of_ctxTuple htd]
    exact hw t ht
  have hsafe : api.decide.mode = .off ∨
      (CutsKeepSwitch ((api.checkEnv req u).withContextual ctx) (req.question r o) ∧
        CutsKeepSwitch ((api.checkEnv req u).withStored tuples') (req.question r o)) :=
    hmemo.imp_right fun h => h u r o hu hr ho
  refine decideAccess_agree ?_ ?_ ?_ ?_ hb hc
  · rfl
  · rfl
  · rfl
  · intro x y hx hy
    have hcheck := @checkAccess_contextual_agree (api.checkEnv req u)
    exact hcheck rfl rfl hstored hctx hsafe hx hy

/-! ## A list on the object wildcard -/

/-- Names with their places as ids. -/
def idTable (names : List String) : List (String × ℕ) :=
  names.dedup.map fun name => (name, names.dedup.idxOf name)

theorem idTable_name (names : List String) : ((idTable names).map Prod.fst).Nodup := by
  rw [idTable, List.map_map]
  simpa [Function.comp_def] using List.nodup_dedup names

theorem idTable_id (names : List String) : ((idTable names).map Prod.snd).Nodup := by
  rw [idTable, List.map_map]
  refine List.Nodup.map_on (fun x hx y _ hxy => ?_) (List.nodup_dedup names)
  exact (List.idxOf_inj hx).mp hxy

theorem lookup_map {f : String → ℕ} {names : List String} {name : String} (h : name ∈ names) :
    (names.map fun n => (n, f n)).lookup name = some (f name) := by
  induction names with
  | nil => cases h
  | cons n names ih =>
    rw [List.map_cons, List.lookup_cons]
    by_cases hn : name = n
    · simp [hn]
    · rw [beq_false_of_ne hn]
      exact ih ((List.mem_cons.mp h).resolve_left hn)

theorem lookup_idTable {names : List String} {name : String} (h : name ∈ names) :
    (idTable names).lookup name = some (names.dedup.idxOf name) :=
  lookup_map (List.mem_dedup.mpr h)

/-- The names of a store that has just these types and relations. -/
def StoreCatalog.ofNames (types relations : List String) : StoreCatalog where
  types := idTable types
  relations := idTable relations
  types_name := idTable_name types
  types_id := idTable_id types
  relations_name := idTable_name relations
  relations_id := idTable_id relations

section OfNames

variable {types relations : List String}

theorem StoreCatalog.t_ofNames {name : String} (h : name ∈ types) :
    (StoreCatalog.ofNames types relations).t name = .ok (types.dedup.idxOf name) := by
  simp [StoreCatalog.t, StoreCatalog.ofNames, lookup_idTable h]

theorem StoreCatalog.r_ofNames {name : String} (h : name ∈ relations) :
    (StoreCatalog.ofNames types relations).r name = .ok (relations.dedup.idxOf name) := by
  simp [StoreCatalog.r, StoreCatalog.ofNames, lookup_idTable h]

/-- The row of a contextual tuple in such a store. -/
def TupleInput.rowIn (types relations : List String) (t : TupleInput) : CtxTuple :=
  ⟨types.dedup.idxOf t.userType, t.userId, t.userRelation.map relations.dedup.idxOf,
    relations.dedup.idxOf t.relation, types.dedup.idxOf t.objectType, t.objectId⟩

/-- The names a contextual tuple mentions. -/
def TupleInput.typeNames (t : TupleInput) : List String := [t.userType, t.objectType]

def TupleInput.relationNames (t : TupleInput) : List String := t.relation :: t.userRelation.toList

theorem StoreCatalog.ctxTuple_ofNames {t : TupleInput} (ht : ∀ name ∈ t.typeNames, name ∈ types)
    (hr : ∀ name ∈ t.relationNames, name ∈ relations) :
    (StoreCatalog.ofNames types relations).ctxTuple t = .ok (t.rowIn types relations) := by
  have huser := ht t.userType (by simp [TupleInput.typeNames])
  have hobject := ht t.objectType (by simp [TupleInput.typeNames])
  have hrelation := hr t.relation (by simp [TupleInput.relationNames])
  have hset : (StoreCatalog.ofNames types relations).userRelation t.userRelation =
      .ok (t.userRelation.map relations.dedup.idxOf) := by
    cases hur : t.userRelation with
    | none => rfl
    | some name =>
      have hname := hr name (by simp [TupleInput.relationNames, hur])
      rw [StoreCatalog.userRelation, StoreCatalog.r_ofNames hname]
      rfl
  rw [StoreCatalog.ctxTuple, StoreCatalog.t_ofNames huser, StoreCatalog.t_ofNames hobject,
    StoreCatalog.r_ofNames hrelation, hset]
  rfl

end OfNames

theorem mapM_of_forall {ε α β : Type} {f : α → Except ε β} {g : α → β} {l : List α}
    (h : ∀ a ∈ l, f a = .ok (g a)) : l.mapM f = .ok (l.map g) := by
  induction l with
  | nil => rfl
  | cons a l ih =>
    rw [List.mapM_cons, h a List.mem_cons_self, ih fun a ha => h a (.tail _ ha)]
    rfl

theorem forM_of_forall {ε α : Type} {f : α → Except ε Unit} {l : List α}
    (h : ∀ a ∈ l, f a = .ok ()) : l.forM f = .ok () := by
  induction l with
  | nil => rfl
  | cons a l ih =>
    show (do f a; l.forM f) = _
    rw [h a List.mem_cons_self, ih fun a ha => h a (.tail _ ha)]
    rfl

theorem ok_bind {ε α β : Type} (a : α) (f : α → Except ε β) :
    ((.ok a : Except ε α) >>= f) = f a := rfl

/-- Without gates, a decision is its check. -/
theorem decideAccess_ungated {env : DecideEnv} (hoff : env.gates.gatesMode = .off) {q : Question}
    {b : Bool} (hb : checkAccess { env.check with exclude := none } env.maxDepth env.mode q = .ok b) :
    decideAccess env none q = .ok b := by
  unfold decideAccess
  rw [hb]
  cases b with
  | false => rfl
  | true =>
    simp only [eventCheckGates, hoff, or_true, if_true]
    rfl

/-- Two checks that differ, on a store that knows the names of the list, show that the list does not
count as if it were stored. -/
theorem not_likeStored {C : List TupleInput} {t : TupleInput} (ht : t ∈ C)
    {types relations : List String} (hT : ∀ t ∈ C, ∀ name ∈ t.typeNames, name ∈ types)
    (hR : ∀ t ∈ C, ∀ name ∈ t.relationNames, name ∈ relations) {rules : List Rule}
    {tuples tuples' : List Tuple} {userId o : String} {env : CheckEnv}
    (henv : env = plainCheck rules tuples (types.dedup.idxOf t.userType) userId)
    (hstored : StoredWith env.tuples (C.map (TupleInput.rowIn types relations)) tuples')
    (hb : checkAccess (env.withContextual (C.map (TupleInput.rowIn types relations))) 32 .off
      ⟨⟨relations.dedup.idxOf t.relation, types.dedup.idxOf t.objectType, o⟩, false⟩ = .ok false)
    (hc : checkAccess (env.withStored tuples') 32 .off
      ⟨⟨relations.dedup.idxOf t.relation, types.dedup.idxOf t.objectType, o⟩, false⟩ = .ok true) :
    ¬ LikeStored C := by
  subst henv
  intro hlike
  let api : ApiEnv :=
    { catalog := .ofNames types relations
      canRead := fun _ => true
      decide :=
        { check := plainCheck rules tuples (types.dedup.idxOf t.userType) userId
          maxDepth := 32, mode := .off, gates := ⟨.off, [], fun _ _ _ _ _ => .ok true⟩ } }
  let req : NamedRequest := ⟨t.userType, userId, t.relation, t.objectType, o, none⟩
  have htype : ∀ t' ∈ C, api.catalog.t t'.objectType = .ok (types.dedup.idxOf t'.objectType) :=
    fun t' ht' => StoreCatalog.t_ofNames (hT t' ht' _ (by simp [TupleInput.typeNames]))
  have huser : api.catalog.t req.userType = .ok (types.dedup.idxOf t.userType) :=
    StoreCatalog.t_ofNames (hT t ht t.userType (by simp [TupleInput.typeNames]))
  have hobject : api.catalog.t req.objectType = .ok (types.dedup.idxOf t.objectType) := htype t ht
  have hrelation : api.catalog.r req.relation = .ok (relations.dedup.idxOf t.relation) :=
    StoreCatalog.r_ofNames (hR t ht t.relation (by simp [TupleInput.relationNames]))
  have hload : C.mapM api.catalog.ctxTuple = .ok (C.map (TupleInput.rowIn types relations)) :=
    mapM_of_forall fun t ht => StoreCatalog.ctxTuple_ofNames (hT t ht) (hR t ht)
  have hread : ∀ type, api.checkNamespaceAccess type = .ok () := fun _ => rfl
  have hspaces : (C.forM fun t' => do
      let type ← api.catalog.t t'.objectType
      if type ≠ types.dedup.idxOf t.objectType then api.checkNamespaceAccess type) = .ok () := by
    refine forM_of_forall fun t' ht' => ?_
    rw [htype t' ht', ok_bind, hread]
    split <;> rfl
  have hfalse : checkAccessWithContextualTuples api req C = .ok false := by
    unfold checkAccessWithContextualTuples
    rw [huser, ok_bind, hrelation, ok_bind, hobject, ok_bind, hread, ok_bind, hspaces, ok_bind, hload,
      ok_bind, decideAccess_ungated (b := false) rfl hb]
    rfl
  have htrue : checkAccessWithContext (api.withStored tuples') req = .ok true := by
    -- the names and the namespaces are those of the store before
    have huser' : (api.withStored tuples').catalog.t req.userType =
        .ok (types.dedup.idxOf t.userType) := huser
    have hobject' : (api.withStored tuples').catalog.t req.objectType =
        .ok (types.dedup.idxOf t.objectType) := hobject
    have hrelation' : (api.withStored tuples').catalog.r req.relation =
        .ok (relations.dedup.idxOf t.relation) := hrelation
    have hread' : (api.withStored tuples').checkNamespaceAccess (types.dedup.idxOf t.objectType) =
        .ok () := rfl
    unfold checkAccessWithContext
    rw [hobject', ok_bind, hread', ok_bind, huser', ok_bind, hrelation', ok_bind,
      decideAccess_ungated (b := true) rfl hc]
    rfl
  exact absurd (hlike api req _ tuples' hload hstored (.inl rfl) false true hfalse htrue)
    Bool.false_ne_true

/-- **A list with a tuple on the object wildcard does not count as if it were stored**: there is a
store on which it gives less. -/
theorem not_likeStored_of_wildcard {C : List TupleInput} {t : TupleInput} (ht : t ∈ C)
    (hw : t.objectId = wildcard) : ¬ LikeStored C := by
  -- names of two more relations, and an object that the list does not mention
  obtain ⟨l₀, hl₀⟩ := Infinite.exists_notMem_finset (C.flatMap TupleInput.relationNames).toFinset
  obtain ⟨m₀, hm₀⟩ :=
    Infinite.exists_notMem_finset (l₀ :: C.flatMap TupleInput.relationNames).toFinset
  obtain ⟨o, ho⟩ := Infinite.exists_notMem_finset (t.userId :: C.map TupleInput.objectId).toFinset
  rw [List.mem_toFinset] at hl₀ hm₀ ho
  set types := C.flatMap TupleInput.typeNames
  set relations := m₀ :: l₀ :: C.flatMap TupleInput.relationNames with hrelations
  have hT : ∀ t ∈ C, ∀ name ∈ t.typeNames, name ∈ types :=
    fun t ht name hname => List.mem_flatMap.mpr ⟨t, ht, hname⟩
  have hmention : ∀ t ∈ C, ∀ name ∈ t.relationNames,
      name ∈ C.flatMap TupleInput.relationNames :=
    fun t ht name hname => List.mem_flatMap.mpr ⟨t, ht, hname⟩
  have hR : ∀ t ∈ C, ∀ name ∈ t.relationNames, name ∈ relations :=
    fun t ht name hname => .tail _ (.tail _ (hmention t ht name hname))
  have hid : ∀ {x y : String}, x ∈ relations → x ≠ y →
      relations.dedup.idxOf x ≠ relations.dedup.idxOf y :=
    fun hx hne h => hne ((List.idxOf_inj (List.mem_dedup.mpr hx)).mp h)
  have hobject : ∀ c ∈ C.map (TupleInput.rowIn types relations), c.objectId ≠ o := by
    intro c hc heq
    obtain ⟨s, hs, rfl⟩ := List.mem_map.mp hc
    have hso : s.objectId = o := heq
    exact ho (hso ▸ List.mem_cons_of_mem _ (List.mem_map_of_mem hs))
  have hrow : t.rowIn types relations ∈ C.map (TupleInput.rowIn types relations) :=
    List.mem_map_of_mem ht
  cases hur : t.userRelation with
  | none =>
    obtain ⟨hb, hc⟩ := grantCheck_missed hrow hw (by simp [TupleInput.rowIn, hur]) hobject
      (storedWith_upsertAll [] (C.map (TupleInput.rowIn types relations)))
    exact not_likeStored ht hT hR rfl (storedWith_upsertAll _ _) hb hc
  | some u =>
    have hmem : ∀ c ∈ C.map (TupleInput.rowIn types relations), ∀ x ∈ relations,
        x ∉ C.flatMap TupleInput.relationNames → c.relation ≠ relations.dedup.idxOf x := by
      intro c hc x hx hx' heq
      obtain ⟨s, hs, rfl⟩ := List.mem_map.mp hc
      have hs' : s.relation ∈ C.flatMap TupleInput.relationNames :=
        hmention s hs _ (by simp [TupleInput.relationNames])
      exact hid hx (fun h => hx' (h ▸ hs')) heq.symm
    have hl := fun c hc => hmem c hc l₀ (by simp [hrelations]) hl₀
    have hm := fun c hc => hmem c hc m₀ (by simp [hrelations]) fun h => hm₀ (.tail _ h)
    have hu : u ∈ C.flatMap TupleInput.relationNames :=
      hmention t ht u (by simp [TupleInput.relationNames, hur])
    have hmu : relations.dedup.idxOf m₀ ≠ relations.dedup.idxOf u :=
      hid (by simp [hrelations]) fun h => hm₀ (h ▸ .tail _ hu)
    have hml : relations.dedup.idxOf m₀ ≠ relations.dedup.idxOf l₀ :=
      hid (by simp [hrelations]) fun h => hm₀ (h ▸ List.mem_cons_self)
    have hou : t.userId ≠ o := fun h => ho (h ▸ List.mem_cons_self)
    exact not_likeStored ht hT hR rfl (storedWith_memberTuples hrow)
      (memberCheck_contextual (r := relations.dedup.idxOf u) (hl _ hrow).symm (hm _ hrow).symm hml hobject hou)
      (memberCheck_stored hrow hw (by simp [TupleInput.rowIn, hur]) hl hm hmu hml hobject hou)

/-- **The lists that count as if they were stored** are those without the object wildcard. -/
theorem likeStored_iff (C : List TupleInput) : LikeStored C ↔ ∀ t ∈ C, t.objectId ≠ wildcard := by
  constructor
  · intro hlike t ht hw
    exact not_likeStored_of_wildcard ht hw hlike
  · exact likeStored_of_no_wildcard

/-- A store of documents with viewers and teams with members; the viewers of a document are given
directly or by its team. -/
def documentsApi : ApiEnv where
  catalog :=
    { types := [("user", 1), ("team", 2), ("document", 3)]
      relations := [("member", 1), ("viewer", 2), ("owner", 3)]
      types_name := by decide
      types_id := by decide
      relations_name := by decide
      relations_id := by decide }
  canRead := fun _ => true
  decide :=
    { check := plainCheck [⟨2, 1, .direct, 0, .or, false⟩, ⟨3, 2, .direct, 0, .or, false⟩,
        ⟨3, 2, .ttu 3 1, 1, .or, false⟩] [] 1 ""
      maxDepth := 32, mode := .temp, gates := ⟨.enforce, [], fun _ _ _ _ _ => .ok true⟩ }

/-- Contextual tuples give Ann a document through the team that owns it, as stored ones do. -/
example :
    let C : List TupleInput := [⟨"user", "ann", none, "member", "team", "blue"⟩,
      ⟨"team", "blue", none, "owner", "document", "plan"⟩]
    let req : NamedRequest := ⟨"user", "ann", "viewer", "document", "plan", none⟩
    checkAccessWithContextualTuples documentsApi req C = .ok true ∧
      checkAccessWithContext (documentsApi.withStored
        (upsertAll [] [⟨1, "ann", none, 1, 2, "blue"⟩, ⟨2, "blue", none, 3, 3, "plan"⟩])) req =
          .ok true := by
  decide +kernel

/-- **Ann as a viewer of every document**: stored, the tuple gives her the plan; as a contextual
tuple it gives her nothing. -/
theorem viewer_of_all_missed :
    let C : List TupleInput := [⟨"user", "ann", none, "viewer", "document", "*"⟩]
    let req : NamedRequest := ⟨"user", "ann", "viewer", "document", "plan", none⟩
    C.mapM documentsApi.catalog.ctxTuple = .ok [⟨1, "ann", none, 2, 3, "*"⟩] ∧
      upsertAll documentsApi.decide.check.tuples [⟨1, "ann", none, 2, 3, "*"⟩] =
        [⟨1, "ann", none, 2, 3, "*", none, none, none⟩] ∧
      checkAccessWithContextualTuples documentsApi req C = .ok false ∧
      checkAccessWithContext (documentsApi.withStored [⟨1, "ann", none, 2, 3, "*", none, none, none⟩])
        req = .ok true := by
  refine ⟨?_, ?_, ?_, ?_⟩ <;> decide +kernel

end PgAuthz
