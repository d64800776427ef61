import PgAuthz.Engine.Correct
import PgAuthz.Keyed.Table

/-!
# Cleaning up redundant tuples

`find_redundant_tuples` reports a direct tuple when the check still grants its subject the access
while that one tuple is left out. `cleanup_redundant_tuples` finds all of them first and then
deletes all of them, so two tuples that are redundant only because of each other are both deleted.

## Main definitions

* `StoreState`, `Circumstances`: the tables, and what a check takes besides them
* `findRedundantTuples`, `cleanupRedundantTuples`: the two functions
* `Covered`: what a group of rules concludes through a deleted tuple is decided without it
* `Supported`: what is decided without the deleted tuples is derived with them
* `NegationUnread`: no negated rule reads a deleted tuple

## Main results

* `cleanup_preserves_iff`: a cleanup keeps every decision exactly when its deletions are covered
  and the remaining decisions supported
-/

namespace PgAuthz.Redundancy

open Resolution

/-! ## The tables and the checks -/

/-- The tables of a store. -/
structure StoreState where
  rules : List Rule
  conditions : List Condition
  tuples : List Tuple
deriving DecidableEq, Repr

/-- What a check takes besides the store: the server, the statement time, the request and its
subject. -/
structure Circumstances where
  platform : Platform
  maxContextBytes : ℤ
  evalClock : ℤ
  now : ℤ
  requestContext : Option Context
  ctxTuples : List CtxTuple
  hasCtxTuples : Bool
  userType : ℕ
  userId : String

/-- What a check of the store reads. -/
def StoreState.env (s : StoreState) (w : Circumstances) (exclude : Option TupleKey) : CheckEnv where
  platform := w.platform
  maxContextBytes := w.maxContextBytes
  conditions := s.conditions
  evalClock := w.evalClock
  requestContext := w.requestContext
  rules := s.rules
  tuples := visible w.now s.tuples
  ctxTuples := w.ctxTuples
  hasCtxTuples := w.hasCtxTuples
  exclude := exclude
  userType := w.userType
  userId := w.userId

/-- A call of the cleanup. `mayDelete` are the namespace and floor checks of `delete_tuple`, which
let a delete happen or raise. -/
structure Call where
  platform : Platform
  maxContextBytes : ℤ
  evalClock : ℤ
  now : ℤ
  context : Option Context
  objectType : Option ℕ
  relation : Option ℕ
  maxDepth : ℤ
  mode : MemoMode
  mayDelete : StoreState → Tuple → Bool

/-- The check of the subject of a tuple, in the statement of the call. -/
def Call.asking (c : Call) (t : Tuple) : Circumstances where
  platform := c.platform
  maxContextBytes := c.maxContextBytes
  evalClock := c.evalClock
  now := c.now
  requestContext := c.context
  ctxTuples := []
  hasCtxTuples := false
  userType := t.userType
  userId := t.userId

/-! ## The functions -/

/-- The composite `authz._tuple_key` of a tuple. -/
def keyOf (t : Tuple) : TupleKey := ⟨t.userType, t.userId, t.relation, t.objectType, t.objectId⟩

/-- The scan: direct tuples without a wildcard, of the object type and the relation of the call. -/
def inScope (c : Call) (t : Tuple) : Bool :=
  t.userRelation = none ∧ t.userId ≠ wildcard ∧ t.objectId ≠ wildcard ∧
    (c.objectType = none ∨ c.objectType = some t.objectType) ∧
    (c.relation = none ∨ c.relation = some t.relation)

/-- The body of the scan: the tuple grants now, and the check grants without it. -/
def isRedundant (s : StoreState) (c : Call) (t : Tuple) : Except (Halt EngineError) Bool := do
  let grants ← (evalCondition (s.env (c.asking t) none).toConditionEnv false t.conditionId
    t.conditionContext).mapError .raised
  -- a tuple whose condition does not pass is skipped
  if grants then
    checkAccess (s.env (c.asking t) (some (keyOf t))) c.maxDepth c.mode
      ⟨⟨t.relation, t.objectType, t.objectId⟩, false⟩
  else return false

/-- The loop of `find_redundant_tuples`. -/
def redundantAmong (s : StoreState) (c : Call) : List Tuple → Except (Halt EngineError) (List Tuple)
  | [] => .ok []
  | t :: ts =>
    if inScope c t then do
      let redundant ← isRedundant s c t
      let rest ← redundantAmong s c ts
      return if redundant then t :: rest else rest
    else redundantAmong s c ts

/-- `find_redundant_tuples`. -/
def findRedundantTuples (s : StoreState) (c : Call) : Except (Halt EngineError) (List Tuple) :=
  redundantAmong s c (visible c.now s.tuples)

/-- The delete of `_delete_tuple_impl`, which sees expired rows too. -/
def deleteTuple (s : StoreState) (t : Tuple) : StoreState :=
  { s with tuples := s.tuples.filter fun r => ¬ (r.userRelation = none ∧ keyOf r = keyOf t) }

/-- How a cleanup fails. -/
inductive CleanupError
  | check (e : Halt EngineError)
  | deleteRefused
deriving DecidableEq, Repr

/-- The deletes of a cleanup, in turn. -/
def deleteAll (c : Call) : StoreState → List Tuple → Except CleanupError StoreState
  | s, [] => .ok s
  | s, t :: ts =>
    if c.mayDelete s t then deleteAll c (deleteTuple s t) ts else .error .deleteRefused

/-- `cleanup_redundant_tuples`: the state it leaves and the tuples it reports. The rows of
`find_redundant_tuples` are all there before the first delete. -/
def cleanupRedundantTuples (s : StoreState) (c : Call) (dryRun : Bool) :
    Except CleanupError (StoreState × List Tuple) := do
  let found ← (findRedundantTuples s c).mapError .check
  if dryRun then return (s, found)
  else
    let after ← deleteAll c s found
    return (after, found)

/-! ## What a cleanup deletes -/

/-- The tuples that the scan reports. -/
def Redundant (s : StoreState) (c : Call) (t : Tuple) : Prop :=
  t ∈ visible c.now s.tuples ∧ inScope c t = true ∧ isRedundant s c t = .ok true

/-- The tuples that a cleanup deletes: the direct tuples with the key of a reported one. -/
def Deleted (s : StoreState) (c : Call) (t : Tuple) : Prop :=
  t ∈ s.tuples ∧ t.userRelation = none ∧ ∃ r, Redundant s c r ∧ keyOf t = keyOf r

theorem redundantAmong_spec {s : StoreState} {c : Call} {ts found : List Tuple}
    (h : redundantAmong s c ts = .ok found) (t : Tuple) :
    t ∈ found ↔ t ∈ ts ∧ inScope c t = true ∧ isRedundant s c t = .ok true := by
  induction ts generalizing found with
  | nil =>
    obtain rfl := Except.ok.inj h
    simp
  | cons r ts ih =>
    unfold redundantAmong at h
    split at h
    · rename_i hscope
      obtain ⟨redundant, hr, h⟩ := Keyed.bind_eq_ok_iff.mp h
      obtain ⟨rest, hrest, h⟩ := Keyed.bind_eq_ok_iff.mp h
      obtain rfl := Except.ok.inj h
      rw [List.mem_cons, or_and_right, ← ih hrest]
      cases redundant with
      | true =>
        rw [if_pos rfl, List.mem_cons]
        refine or_congr (iff_self_and.mpr ?_) Iff.rfl
        rintro rfl
        exact ⟨hscope, hr⟩
      | false =>
        refine ⟨.inr, ?_⟩
        rintro (⟨rfl, -, hr'⟩ | h)
        · rw [hr] at hr'
          cases hr'
        · exact h
    · rename_i hscope
      rw [ih h, List.mem_cons, or_and_right]
      refine ⟨.inr, ?_⟩
      rintro (⟨rfl, hscope', -⟩ | h)
      · exact absurd hscope' hscope
      · exact h

/-- The deletes keep everything but the direct tuples with one of the keys. -/
theorem deleteAll_spec {c : Call} {s s' : StoreState} {ts : List Tuple}
    (h : deleteAll c s ts = .ok s') :
    s' = { s with tuples := s'.tuples } ∧ ∀ t, t ∈ s'.tuples ↔
      t ∈ s.tuples ∧ ¬ (t.userRelation = none ∧ ∃ r ∈ ts, keyOf t = keyOf r) := by
  induction ts generalizing s with
  | nil =>
    obtain rfl := Except.ok.inj h
    simp
  | cons r ts ih =>
    unfold deleteAll at h
    split at h
    · obtain ⟨hs, htuples⟩ := ih h
      refine ⟨hs, fun t => ?_⟩
      rw [htuples t, deleteTuple, List.mem_filter, decide_eq_true_iff, and_assoc,
        List.exists_mem_cons_iff, and_or_left, not_or]
    · cases h

theorem cleanup_spec {s s' : StoreState} {c : Call} {reported : List Tuple}
    (h : cleanupRedundantTuples s c false = .ok (s', reported)) :
    s' = { s with tuples := s'.tuples } ∧
      ∀ t, t ∈ s'.tuples ↔ t ∈ s.tuples ∧ ¬ Deleted s c t := by
  obtain ⟨found, hfound, h⟩ := Keyed.bind_eq_ok_iff.mp h
  obtain ⟨after, hafter, h⟩ := Keyed.bind_eq_ok_iff.mp h
  obtain ⟨rfl, rfl⟩ := Prod.mk.inj (Except.ok.inj h)
  have hscan : findRedundantTuples s c = .ok found := by
    cases hf : findRedundantTuples s c with
    | ok l =>
      rw [hf] at hfound
      exact congrArg Except.ok (Except.ok.inj hfound)
    | error e =>
      rw [hf] at hfound
      cases hfound
  obtain ⟨hs, htuples⟩ := deleteAll_spec hafter
  refine ⟨hs, fun t => ?_⟩
  rw [htuples t]
  refine and_congr_right fun ht => not_congr ?_
  simp only [Deleted, ht, true_and, Redundant, redundantAmong_spec hscan]

/-- A deleted tuple is direct and has no wildcard. -/
theorem Deleted.direct {s : StoreState} {c : Call} {t : Tuple} (h : Deleted s c t) :
    t.userRelation = none ∧ t.userId ≠ wildcard ∧ t.objectId ≠ wildcard := by
  obtain ⟨-, hrel, r, ⟨-, hscope, -⟩, hkey⟩ := h
  obtain ⟨-, huser, hobject, -⟩ := of_decide_eq_true hscope
  obtain ⟨-, hu, -, -, ho⟩ := TupleKey.mk.inj hkey
  exact ⟨hrel, hu ▸ huser, ho ▸ hobject⟩

/-! ## Rules over fewer tuples -/

/-- A rule of the node `n` reads a direct tuple without a wildcard: a direct rule as a grant of the
subject, a tuple-to-userset rule as a link of its tupleset. -/
def RuleReads (env : CheckEnv) (n : Node) (t : Tuple) : RuleBody → Prop
  | .direct => t.relation = n.relation ∧ t.objectType = n.objectType ∧ t.objectId = n.objectId ∧
      t.userType = env.userType ∧ t.userId = env.userId
  | .computed _ => False
  | .ttu tuplesetRelation _ =>
      t.objectType = n.objectType ∧ t.objectId = n.objectId ∧ t.relation = tuplesetRelation

section Fewer

variable {env : CheckEnv} {T : List Tuple}

/-- The same check over other tuples. -/
def withTuples (env : CheckEnv) (T : List Tuple) : CheckEnv := { env with tuples := T }

theorem premise_of_withTuples (hT : T ⊆ env.tuples) {n n' : Node} {body : RuleBody}
    (h : Premise (withTuples env T) n n' body) : Premise env n n' body := by
  cases body with
  | direct => exact h.imp_left fun ⟨t, ht, hn⟩ => ⟨t, hT ht, hn⟩
  | computed r => exact h
  | ttu ts c => exact h.imp_left fun ⟨t, ht, hn⟩ => ⟨t, hT ht, hn⟩

theorem stratified_withTuples (hT : T ⊆ env.tuples) (hs : Stratified env) : Stratified (withTuples env T) := by
  rintro n n' ⟨ρ, hρ, hneg, hp⟩ hcycle
  refine hs n n' ⟨ρ, hρ, hneg, premise_of_withTuples hT hp⟩
    (Relation.ReflTransGen.mono ?_ _ _ hcycle)
  rintro k k' ⟨m, m', hm, hm', ρ', hρ', hp'⟩
  exact ⟨m, m', hm, hm', ρ', hρ', premise_of_withTuples hT hp'⟩

/-- What holds over fewer tuples holds over all of them. -/
theorem ruleHolds_of_withTuples (hT : T ⊆ env.tuples) {X : Set Question} {q : Question} {body : RuleBody}
    (h : RuleHolds (withTuples env T) X q body) : RuleHolds env X q body := by
  cases body with
  | direct =>
    rcases h with ⟨t, ht, hgrant⟩ | hctx | ⟨n', hset, hX⟩
    · exact .inl ⟨t, hT ht, hgrant⟩
    · exact .inr (.inl hctx)
    · exact .inr (.inr ⟨n', hset.imp_left fun ⟨t, ht, hn⟩ => ⟨t, hT ht, hn⟩, hX⟩)
  | computed r => exact h
  | ttu ts c =>
    obtain ⟨n', hlink, hX⟩ := h
    exact ⟨n', hlink.imp_left fun ⟨t, ht, hn⟩ => ⟨t, hT ht, hn⟩, hX⟩

/-- A rule that reads none of the tuples left out, which are direct and have no wildcard, holds
over fewer tuples as it holds over all of them. -/
theorem ruleHolds_withTuples (hout : ∀ t ∈ env.tuples, t ∉ T →
      t.userRelation = none ∧ t.userId ≠ wildcard ∧ t.objectId ≠ wildcard)
    {X : Set Question} {q : Question} {body : RuleBody}
    (hunread : ∀ t ∈ env.tuples, t ∉ T → ¬ RuleReads env q.node t body)
    (h : RuleHolds env X q body) : RuleHolds (withTuples env T) X q body := by
  cases body with
  | direct =>
    rcases h with ⟨t, ht, hrel, htype, hobj, hut, hui, hgrant⟩ | hctx | ⟨n', hset, hX⟩
    · refine .inl ⟨t, ?_, hrel, htype, hobj, hut, hui, hgrant⟩
      by_contra hmem
      obtain ⟨-, huser, hobject⟩ := hout t ht hmem
      -- the tuple has no wildcard, so it is a grant of the subject on the node
      exact hunread t ht hmem ⟨hrel, htype, (hobj.resolve_right hobject).1, hut,
        hui.resolve_right huser⟩
    · exact .inr (.inl hctx)
    · refine .inr (.inr ⟨n', hset.imp_left ?_, hX⟩)
      rintro ⟨t, ht, hn, hpass⟩
      refine ⟨t, ?_, hn, hpass⟩
      -- a userset row is not left out
      by_contra hmem
      simp [usersetNode, (hout t ht hmem).1] at hn
  | computed r => exact h
  | ttu ts c =>
    obtain ⟨n', hlink, hX⟩ := h
    refine ⟨n', hlink.imp_left ?_, hX⟩
    rintro ⟨t, ht, hn, hpass⟩
    refine ⟨t, ?_, hn, hpass⟩
    by_contra hmem
    unfold linkNode at hn
    split at hn
    · rename_i hrow
      exact hunread t ht hmem ⟨hrow.1, hrow.2.1, hrow.2.2.1⟩
    · cases hn

end Fewer

/-! ## When a cleanup keeps the decisions -/

/-- A rule of the node `n` reads a tuple that the cleanup deletes. -/
def ReadsDeleted (s : StoreState) (c : Call) (w : Circumstances) (n : Node) (body : RuleBody) :
    Prop :=
  ∃ t, Deleted s c t ∧ t.visibleAt w.now = true ∧ RuleReads (s.env w none) n t body

/-- Where a group has a rule that reads a deleted tuple, what the group concludes from the decisions
`D` with that tuple is one of `D`. -/
def Covered (s : StoreState) (c : Call) (w : Circumstances) (D : Set Question) : Prop :=
  ∀ q g, (∃ ρ ∈ groupRules (s.env w none) q.node g, ReadsDeleted s c w q.node ρ.body) →
    GroupHolds (s.env w none) D D q g → q ∈ D

/-- The rules over all tuples derive the decisions `D`, with their negated rules read over `D`. -/
def Supported (s : StoreState) (w : Circumstances) (D : Set Question) : Prop :=
  D ⊆ (ruleSystem (s.env w none)).masked D ∅

/-- No negated rule reads a deleted tuple. -/
def NegationUnread (s : StoreState) (c : Call) (w : Circumstances) : Prop :=
  ∀ ρ ∈ s.rules, ρ.negated = true → ∀ n, ¬ ReadsDeleted s c w n ρ.body

/-- The decisions of a store. -/
def decisions {s : StoreState} {w : Circumstances} (hs : Stratified (s.env w none)) :
    Set Question :=
  {q | Holds hs q}

section Cleanup

variable {s s' : StoreState} {c : Call} {w : Circumstances}

/-- The state after a cleanup, as far as a check reads it. -/
structure Cleaned (s s' : StoreState) (c : Call) : Prop where
  eq_with : s' = { s with tuples := s'.tuples }
  mem_iff : ∀ t, t ∈ s'.tuples ↔ t ∈ s.tuples ∧ ¬ Deleted s c t

theorem Cleaned.env_eq (h : Cleaned s s' c) (w : Circumstances) :
    s'.env w none = withTuples (s.env w none) (visible w.now s'.tuples) := by
  rw [h.eq_with]
  rfl

theorem Cleaned.subset (h : Cleaned s s' c) (w : Circumstances) :
    visible w.now s'.tuples ⊆ (s.env w none).tuples := by
  intro t ht
  obtain ⟨hmem, hvis⟩ := List.mem_filter.mp ht
  exact List.mem_filter.mpr ⟨((h.mem_iff t).mp hmem).1, hvis⟩

/-- A tuple that a check no longer sees was deleted. -/
theorem Cleaned.deleted (h : Cleaned s s' c) {t : Tuple} (ht : t ∈ (s.env w none).tuples)
    (hout : t ∉ visible w.now s'.tuples) : Deleted s c t ∧ t.visibleAt w.now = true := by
  obtain ⟨hmem, hvis⟩ := List.mem_filter.mp ht
  refine ⟨?_, hvis⟩
  by_contra hdel
  exact hout (List.mem_filter.mpr ⟨(h.mem_iff t).mpr ⟨hmem, hdel⟩, hvis⟩)

theorem Cleaned.stratified (h : Cleaned s s' c) (hs : Stratified (s.env w none)) :
    Stratified (s'.env w none) := by
  rw [h.env_eq w]
  exact stratified_withTuples (h.subset w) hs

/-- A rule that reads no deleted tuple holds after the cleanup as before. -/
theorem Cleaned.ruleHolds_iff (h : Cleaned s s' c) {X : Set Question} {q : Question}
    {body : RuleBody} (hunread : ¬ ReadsDeleted s c w q.node body) :
    RuleHolds (s'.env w none) X q body ↔ RuleHolds (s.env w none) X q body := by
  rw [h.env_eq w]
  refine ⟨ruleHolds_of_withTuples (h.subset w), ruleHolds_withTuples ?_ ?_⟩
  · exact fun t ht hout => (h.deleted ht hout).1.direct
  · intro t ht hout hreads
    obtain ⟨hdel, hvis⟩ := h.deleted ht hout
    exact hunread ⟨t, hdel, hvis, hreads⟩

theorem Cleaned.ruleHolds_before (h : Cleaned s s' c) {X : Set Question} {q : Question}
    {body : RuleBody} (hq : RuleHolds (s'.env w none) X q body) :
    RuleHolds (s.env w none) X q body := by
  rw [h.env_eq w] at hq
  exact ruleHolds_of_withTuples (h.subset w) hq

theorem Cleaned.groupRules_eq (h : Cleaned s s' c) (n : Node) (g : ℤ) :
    groupRules (s'.env w none) n g = groupRules (s.env w none) n g := by
  rw [h.env_eq w]
  rfl

/-- A group whose rules read no deleted tuple holds after the cleanup as before. -/
theorem Cleaned.groupHolds_iff (h : Cleaned s s' c) {X N : Set Question} {q : Question} {g : ℤ}
    (hunread : ∀ ρ ∈ groupRules (s.env w none) q.node g, ¬ ReadsDeleted s c w q.node ρ.body) :
    GroupHolds (s'.env w none) X N q g ↔ GroupHolds (s.env w none) X N q g := by
  unfold GroupHolds
  rw [h.groupRules_eq]
  refine exists_congr fun first => and_congr_right fun _ => ?_
  have hpos : ∀ Y, ∀ ρ ∈ groupRules (s.env w none) q.node g,
      (RuleHolds (s'.env w none) Y q ρ.body ↔ RuleHolds (s.env w none) Y q ρ.body) :=
    fun Y ρ hρ => h.ruleHolds_iff (hunread ρ hρ)
  cases first.groupOp with
  | or => exact exists_congr fun ρ => and_congr_right fun hρ => hpos X ρ hρ
  | and => exact forall₂_congr fun ρ hρ => hpos X ρ hρ
  | exclusion =>
    refine and_congr Iff.rfl (and_congr ?_ ?_)
    · exact forall₂_congr fun ρ hρ => imp_congr_right fun _ => hpos X ρ hρ
    · refine forall₂_congr fun ρ hρ => imp_congr_right fun _ => not_congr ?_
      exact h.ruleHolds_iff (q := q.flip) (hunread ρ hρ)

/-- Where no negated rule reads a deleted tuple, a group that holds after the cleanup held before. -/
theorem Cleaned.groupHolds_before (h : Cleaned s s' c) (hneg : NegationUnread s c w)
    {X N : Set Question} {q : Question} {g : ℤ} (hq : GroupHolds (s'.env w none) X N q g) :
    GroupHolds (s.env w none) X N q g := by
  unfold GroupHolds at hq ⊢
  rw [h.groupRules_eq] at hq
  obtain ⟨first, hfirst, hq⟩ := hq
  refine ⟨first, hfirst, ?_⟩
  revert hq
  cases first.groupOp with
  | or => exact fun ⟨ρ, hρ, hX⟩ => ⟨ρ, hρ, h.ruleHolds_before hX⟩
  | and => exact fun hall ρ hρ => h.ruleHolds_before (hall ρ hρ)
  | exclusion =>
    rintro ⟨hbase, hall, hnone⟩
    refine ⟨hbase, fun ρ hρ hn => h.ruleHolds_before (hall ρ hρ hn), fun ρ hρ hn hhit => ?_⟩
    have hmem : ρ ∈ s.rules := (mem_orderedRules.mp (mem_groupRules hρ)).1
    exact hnone ρ hρ hn ((h.ruleHolds_iff (q := q.flip) (hneg ρ hmem hn _)).mpr hhit)

/-- Without a negated rule that reads a deleted tuple, the remaining decisions are supported. -/
theorem Cleaned.supported (h : Cleaned s s' c) (hs' : Stratified (s'.env w none))
    (hneg : NegationUnread s c w) : Supported s w (decisions hs') := by
  have hstep : ∀ X N, (ruleSystem (s'.env w none)).step X N ⊆ (ruleSystem (s.env w none)).step X N := by
    rintro X N q ⟨g, hg⟩
    exact ⟨g, h.groupHolds_before hneg hg⟩
  exact RuleSystem.leastModel_subset_masked (stratification hs') fun X => hstep X _

/-- The decisions are kept exactly when the deletions are covered and the rest supported. -/
theorem Cleaned.decisions_eq_iff (h : Cleaned s s' c) (hs : Stratified (s.env w none))
    (hs' : Stratified (s'.env w none)) : decisions hs = decisions hs' ↔
      Covered s c w (decisions hs') ∧ Supported s w (decisions hs') := by
  have hclosed : ∀ {q g}, GroupHolds (s'.env w none) (decisions hs') (decisions hs') q g →
      q ∈ decisions hs' := fun hq =>
    ((RuleSystem.leastModel_eq_iff (stratification hs')).mp rfl).1 ⟨_, hq⟩
  refine (RuleSystem.leastModel_eq_iff (stratification hs)).trans (and_congr_left fun _ => ?_)
  constructor
  · exact fun hstep q g _ hq => hstep ⟨g, hq⟩
  · rintro hcov q ⟨g, hq⟩
    by_cases hreads : ∃ ρ ∈ groupRules (s.env w none) q.node g, ReadsDeleted s c w q.node ρ.body
    · exact hcov q g hreads hq
    · -- the group reads nothing that was deleted, so it concludes the same after the cleanup
      refine hclosed ((h.groupHolds_iff fun ρ hρ hr => hreads ⟨ρ, hρ, hr⟩).mpr hq)

end Cleanup

/-- Any two checks that return, one before and one after, give the same decision, whatever their
depth bounds and their memos. -/
def SameChecks (s s' : StoreState) (w : Circumstances) : Prop :=
  ∀ (maxDepth maxDepth' : ℤ) (mode mode' : MemoMode) (q : Question) (b b' : Bool),
    checkAccess (s.env w none) maxDepth mode q = .ok b →
    checkAccess (s'.env w none) maxDepth' mode' q = .ok b' → b = b'

/-- A cleanup of a store without conditions. -/
def plainCall : Call where
  platform := ⟨fun _ _ _ _ => .failed, fun _ => 0, fun _ => ""⟩
  maxContextBytes := 262144
  evalClock := 0
  now := 0
  context := none
  objectType := none
  relation := none
  maxDepth := 32
  mode := .temp
  mayDelete _ _ := true

/-- The grant of relation `r` on the document to a user. -/
def grantOf (userId : String) (r : ℕ) : Tuple := ⟨1, userId, none, r, 3, "d1", none, none, none⟩

/-- Everyone views the document, and so does alice by a tuple of her own. -/
def publicStore : StoreState where
  rules := [⟨3, 1, .direct, 0, .or, false⟩]
  conditions := []
  tuples := [grantOf "*" 1, grantOf "alice" 1]

/-- The same without the tuple of alice. -/
def publicStoreAfter : StoreState := { publicStore with tuples := [grantOf "*" 1] }

theorem publicStore_cleanup : cleanupRedundantTuples publicStore plainCall false =
    .ok (publicStoreAfter, [grantOf "alice" 1]) := by
  decide +kernel

theorem publicStore_rule {ρ : Rule} (h : ρ ∈ publicStore.rules) :
    ρ = ⟨3, 1, .direct, 0, .or, false⟩ :=
  List.mem_singleton.mp h

theorem publicStore_negated {ρ : Rule} (h : ρ ∈ publicStore.rules) : ρ.negated ≠ true := by
  obtain rfl := publicStore_rule h
  exact Bool.false_ne_true

theorem publicStore_stratified (w : Circumstances) : Stratified (publicStore.env w none) := by
  rintro n n' ⟨ρ, hρ, hneg, -⟩
  exact absurd hneg (publicStore_negated (mem_orderedRules.mp hρ).1)

/-- What alice's own tuple gives, the tuple of everyone gives. -/
theorem publicStore_covered (w : Circumstances) (hs' : Stratified (publicStoreAfter.env w none)) :
    Covered publicStore plainCall w (decisions hs') := by
  rintro ⟨n, a⟩ g ⟨ρ, hρ, t, hdel, -, hreads⟩ -
  obtain ⟨hmem, -, -⟩ := mem_orderedRules.mp (mem_groupRules hρ)
  obtain rfl := publicStore_rule hmem
  obtain ⟨hrel, htype, hobj, hut, -⟩ := hreads
  have ht : t = grantOf "alice" 1 := by
    rcases List.mem_cons.mp hdel.1 with rfl | ht
    · exact absurd rfl hdel.direct.2.1
    · exact List.mem_singleton.mp ht
  subst ht
  obtain ⟨r, T, o⟩ := n
  cases hrel
  cases htype
  cases hobj
  refine ((RuleSystem.leastModel_eq_iff (stratification hs')).mp rfl).1 ⟨0, ?_⟩
  refine ⟨⟨3, 1, .direct, 0, .or, false⟩, rfl, ⟨3, 1, .direct, 0, .or, false⟩, ?_, .inl ?_⟩
  · exact List.mem_singleton.mpr rfl
  · exact ⟨grantOf "*" 1, List.mem_singleton.mpr rfl, rfl, rfl, .inl ⟨rfl, nofun⟩, hut, .inr rfl,
      rfl, rfl⟩

/-- Viewers are editors and editors are viewers; alice is both by a tuple of her own. -/
def mutualStore : StoreState where
  rules := [⟨3, 1, .direct, 0, .or, false⟩, ⟨3, 1, .computed 2, 0, .or, false⟩,
    ⟨3, 2, .direct, 0, .or, false⟩, ⟨3, 2, .computed 1, 0, .or, false⟩]
  conditions := []
  tuples := [grantOf "alice" 1, grantOf "alice" 2]

end PgAuthz.Redundancy
