import PgAuthz.Engine.Conditions
import PgAuthz.Resolution.Memo

/-!
# The check

The recursive check of one subject. A question is a relation on an object together with the
missing-context switch it is asked under; the body of a question walks the rules of the relation
group by group and asks further questions, which `checkAccess` answers recursively with a cycle cut
and a memo.

## Main definitions

* `CheckEnv`: what one root check reads and never changes
* `Question`: a node under a missing-context switch
* `evalDirect`, `evalTtu`, `evalRule`: the evaluation of one rule
* `checkAccessImpl`: the loop over the rules of a relation
* `offMemo`, `tempMemo`, `gucMemo`: the three memo backends
* `checkAccess`: the check from its root
-/

namespace PgAuthz

open Resolution

/-- What one root check reads and never changes: the subject, the rules, the tuples the row policy
shows, the contextual tuples and whether they count, and the tuple to leave out. -/
structure CheckEnv extends ConditionEnv where
  rules : List Rule
  tuples : List Tuple
  ctxTuples : List CtxTuple
  hasCtxTuples : Bool
  exclude : Option TupleKey
  userType : ℕ
  userId : String

/-- A relation on an object, asked while the missing-context switch is `assume`. -/
structure Question where
  node : Node
  assume : Bool
deriving DecidableEq, Repr

/-- The evaluation of a rule or of a relation: it asks questions and may raise. -/
abbrev Eval (α : Type) := Walk EngineError Question α

/-! ## One rule -/

/-- A tuple without a userset whose subject is one of `ids` of the subject's type, on the object
`objectId` of the question. -/
def directRow (env : CheckEnv) (n : Node) (objectId : String) (ids : List String) (t : Tuple) :
    Bool :=
  t.objectType = n.objectType ∧ t.objectId = objectId ∧ t.relation = n.relation ∧
    t.userType = env.userType ∧ t.userId ∈ ids ∧ t.userRelation = none

/-- The probe `EXISTS (unconditional row) OR EXISTS (conditional row that passes)`. -/
def probe (env : CheckEnv) (assume : Bool) (row : Tuple → Bool) : Eval Bool := do
  if env.tuples.any fun t => row t && t.conditionId.isNone then
    return true
  Walk.any (env.tuples.filter fun t => row t && t.conditionId.isSome) fun t =>
    Walk.lift (evalCondition env.toConditionEnv assume t.conditionId t.conditionContext)

/-- `v_skip_direct`: the subject's own tuple on this node is left out. -/
def skipDirect (env : CheckEnv) (n : Node) : Bool :=
  match env.exclude with
  | none => false
  | some k => env.userType = k.userType ∧ n.relation = k.relation ∧
      n.objectType = k.objectType ∧ n.objectId = k.objectId ∧ env.userId = k.userId

/-- `v_skip_wildcard`: the subject wildcard's tuple on this node is left out. -/
def skipWildcard (env : CheckEnv) (n : Node) : Bool :=
  match env.exclude with
  | none => false
  | some k => env.userType = k.userType ∧ n.relation = k.relation ∧
      n.objectType = k.objectType ∧ n.objectId = k.objectId ∧ k.userId = wildcard

/-- A probe that `_eval_direct` skips for the tuple left out. -/
def probeUnless (skip : Bool) (env : CheckEnv) (assume : Bool) (row : Tuple → Bool) : Eval Bool :=
  if skip then return false else probe env assume row

/-- `_check_ctx_direct`. -/
def checkCtxDirect (env : CheckEnv) (n : Node) : Bool :=
  env.ctxTuples.any fun t =>
    t.objectType = n.objectType ∧ t.objectId = n.objectId ∧ t.relation = n.relation ∧
      t.userType = env.userType ∧ t.userId ∈ [env.userId, wildcard] ∧ t.userRelation = none

/-- A stored userset row on the object of the question or on the object wildcard, as the node it
names. -/
def usersetNode (n : Node) (t : Tuple) : Option Node :=
  if t.objectType = n.objectType ∧ t.objectId ∈ [n.objectId, wildcard] ∧
      t.relation = n.relation then
    t.userRelation.map fun r => ⟨r, t.userType, t.userId⟩
  else none

/-- `_check_ctx_usersets`: a contextual userset row on the object of the question. -/
def ctxUsersetNode (n : Node) (t : CtxTuple) : Option Node :=
  if t.objectType = n.objectType ∧ t.objectId = n.objectId ∧ t.relation = n.relation then
    t.userRelation.map fun r => ⟨r, t.userType, t.userId⟩
  else none

/-- A stored link row of a tupleset, as the node to check on the linked object. -/
def linkNode (n : Node) (tuplesetRelation tuplesetComputed : ℕ) (t : Tuple) : Option Node :=
  if t.objectType = n.objectType ∧ t.objectId = n.objectId ∧ t.relation = tuplesetRelation ∧
      t.userRelation = none then
    some ⟨tuplesetComputed, t.userType, t.userId⟩
  else none

/-- `_check_ctx_linked`: a contextual link row, as the node to check on the linked object. -/
def ctxLinkNode (n : Node) (tuplesetRelation tuplesetComputed : ℕ) (t : CtxTuple) :
    Option Node :=
  if t.objectType = n.objectType ∧ t.objectId = n.objectId ∧ t.relation = tuplesetRelation ∧
      t.userRelation = none then
    some ⟨tuplesetComputed, t.userType, t.userId⟩
  else none

/-- The loop `FOR tpl IN … LOOP` over stored rows: each row that names a node and whose condition
passes is checked, until one check succeeds. -/
def followRows (env : CheckEnv) (assume : Bool) (rows : List Tuple) (target : Tuple → Option Node) :
    Eval Bool :=
  Walk.any rows fun t =>
    match target t with
    | none => return false
    | some n => do
      if ← Walk.lift (evalCondition env.toConditionEnv assume t.conditionId t.conditionContext) then
        Walk.query ⟨n, assume⟩
      else
        return false

/-- The loop over contextual rows. -/
def followCtxRows (env : CheckEnv) (assume : Bool) (target : CtxTuple → Option Node) :
    Eval Bool :=
  if env.hasCtxTuples then
    Walk.any env.ctxTuples fun t =>
      match target t with
      | none => return false
      | some n => Walk.query ⟨n, assume⟩
  else
    return false

/-- `_eval_direct`: the exact tuple, the subject wildcard, the object wildcard, the contextual
tuples, and then the usersets: unconditional, conditional and contextual. -/
def evalDirect (env : CheckEnv) (q : Question) : Eval Bool := do
  let n := q.node
  if ← probeUnless (skipDirect env n) env q.assume (directRow env n n.objectId [env.userId]) then
    return true
  if ← probeUnless (skipWildcard env n) env q.assume (directRow env n n.objectId [wildcard]) then
    return true
  if ← probe env q.assume (directRow env n wildcard [env.userId, wildcard]) then
    return true
  if env.hasCtxTuples && checkCtxDirect env n then
    return true
  if ← followRows env q.assume (env.tuples.filter fun t => t.conditionId.isNone)
      (usersetNode n) then
    return true
  if ← followRows env q.assume (env.tuples.filter fun t => t.conditionId.isSome)
      (usersetNode n) then
    return true
  followCtxRows env q.assume (ctxUsersetNode n)

/-- `_eval_ttu`: the links of the tupleset relation, stored and then contextual. -/
def evalTtu (env : CheckEnv) (q : Question) (tuplesetRelation tuplesetComputed : ℕ) :
    Eval Bool := do
  if ← followRows env q.assume env.tuples
      (linkNode q.node tuplesetRelation tuplesetComputed) then
    return true
  followCtxRows env q.assume (ctxLinkNode q.node tuplesetRelation tuplesetComputed)

/-- `_eval_rule`. -/
def evalRule (env : CheckEnv) (q : Question) : RuleBody → Eval Bool
  | .direct => evalDirect env q
  | .computed r => Walk.query ⟨{ q.node with relation := r }, q.assume⟩
  | .ttu tuplesetRelation tuplesetComputed => evalTtu env q tuplesetRelation tuplesetComputed

/-! ## The rules of a relation -/

/-- The variables of the loop over the rules: `v_cur_group`, `v_cur_group_op`, `v_group_pass`. -/
structure GroupState where
  curGroup : ℤ
  curGroupOp : Option GroupOp
  groupPass : Option Bool
deriving DecidableEq, Repr

/-- The state before the first rule. -/
def GroupState.init : GroupState := ⟨-1, none, none⟩

/-- The end-of-group test: an intersection or exclusion group that has not failed passes. -/
def GroupState.finalizes (st : GroupState) : Bool :=
  decide (0 ≤ st.curGroup) && st.groupPass == some true &&
    (st.curGroupOp == some .and || st.curGroupOp == some .exclusion)

/-- The start of the group of `rule`. An exclusion group whose first rule is negated has no base
rule and fails. -/
def GroupState.start (rule : Rule) : GroupState :=
  ⟨rule.groupId, some rule.groupOp, some !(rule.groupOp == .exclusion && rule.negated)⟩

/-- The group has failed. -/
def GroupState.fail (st : GroupState) : GroupState := { st with groupPass := some false }

/-- The loop over the remaining rules, which are evaluated by `eval`. -/
def evalGroups (eval : Question → RuleBody → Eval Bool) (q : Question) :
    GroupState → List Rule → Eval Bool
  | st, [] => return st.finalizes
  | st, rule :: rules =>
    if rule.groupId ≠ st.curGroup ∧ st.finalizes then return true
    else
      let st := if rule.groupId ≠ st.curGroup then .start rule else st
      if st.groupPass = some false then evalGroups eval q st rules
      else
        match st.curGroupOp with
        | none => Walk.raise .caseNotFound
        | some .or => do
          if ← eval q rule.body then return true
          else evalGroups eval q st rules
        | some .and => do
          let pass ← eval q rule.body
          evalGroups eval q (if pass then st else st.fail) rules
        | some .exclusion =>
          if rule.negated then do
            -- the subtracted term is evaluated with the switch flipped
            let hit ← eval { q with assume := !q.assume } rule.body
            evalGroups eval q (if hit then st.fail else st) rules
          else do
            let pass ← eval q rule.body
            evalGroups eval q (if pass then st else st.fail) rules

/-- `_check_access_impl` after its depth and cycle tests. -/
def checkAccessImpl (env : CheckEnv) (q : Question) : Eval Bool :=
  evalGroups (evalRule env) q .init (orderedRules env.rules q.node.objectType q.node.relation)

/-! ## The recursion -/

/-- The key of the cycle test: `relation:object_type:object_id`. -/
def pathKey (n : Node) : String :=
  toString n.relation ++ ":" ++ toString n.objectType ++ ":" ++ n.objectId

/-- The key of the memo in a session variable: the key of the cycle test and the switch. -/
def memoKey (q : Question) : String := pathKey q.node ++ ":" ++ toString q.assume

/-- A text before its first separator and the text after it. -/
theorem append_cons_inj {α : Type} {a : α} {x x' y y' : List α} (hx : a ∉ x) (hx' : a ∉ x')
    (h : x ++ a :: y = x' ++ a :: y') : x = x' ∧ y = y' := by
  induction x generalizing x' with
  | nil =>
    cases x' with
    | nil => exact ⟨rfl, (List.cons.inj h).2⟩
    | cons b x' => exact absurd (List.mem_cons.mpr (.inl (List.cons.inj h).1)) hx'
  | cons b x ih =>
    cases x' with
    | nil => exact absurd (List.mem_cons.mpr (.inl (List.cons.inj h).1.symm)) hx
    | cons b' x' =>
      obtain ⟨rfl, htail⟩ := List.cons.inj h
      obtain ⟨rfl, rfl⟩ := ih (fun h => hx (.tail _ h)) (fun h => hx' (.tail _ h)) htail
      exact ⟨rfl, rfl⟩

theorem colon_notMem_toString (n : ℕ) : ':' ∉ (toString n).toList := by
  rw [Nat.toString_eq_repr, Nat.toList_repr]
  intro h
  exact absurd (Nat.isDigit_of_mem_toDigits (by decide) (by decide) h) (by decide)

theorem toString_nat_inj {m n : ℕ} (h : (toString m).toList = (toString n).toList) : m = n := by
  rw [Nat.toString_eq_repr, Nat.toList_repr, Nat.toString_eq_repr, Nat.toList_repr] at h
  have h' := congrArg (Nat.ofDigitChars 10 · 0) h
  simpa [Nat.ofDigitChars_toDigits] using h'

theorem pathKey_injective : Function.Injective pathKey := by
  intro m n h
  have hl := congrArg String.toList h
  simp only [pathKey, String.toList_append, List.append_assoc] at hl
  obtain ⟨hr, hl⟩ := append_cons_inj (colon_notMem_toString _) (colon_notMem_toString _) hl
  obtain ⟨ht, ho⟩ := append_cons_inj (colon_notMem_toString _) (colon_notMem_toString _) hl
  have hr' := toString_nat_inj hr
  have ht' := toString_nat_inj ht
  have ho' := String.toList_injective ho
  cases m
  cases n
  simp_all

theorem memoKey_injective : Function.Injective memoKey := by
  rintro ⟨m, a⟩ ⟨n, b⟩ h
  -- the switch follows the last separator
  have hl := congrArg (fun s => s.toList.reverse) h
  simp only [memoKey, String.toList_append, List.reverse_append] at hl
  have hcolon : ∀ c : Bool, ':' ∉ (toString c).toList.reverse := by decide
  obtain ⟨ha, hk⟩ := append_cons_inj (hcolon a) (hcolon b) hl
  have hab : a = b := by
    revert ha
    cases a <;> cases b <;> decide
  have hmn : (pathKey m).toList = (pathKey n).toList := List.reverse_injective hk
  rw [hab, pathKey_injective (String.toList_injective hmn)]

/-- The memo is skipped at the root and its children. -/
def memoDepth (d : ℕ) : Bool := decide (2 ≤ d)

/-- The kill-switch `authz.memoize = off`. -/
def offMemo : Backend Question Unit where
  usable _ := false
  lookup _ _ := none
  store m _ _ := some m

/-- The memo in a temporary table: a row is kept on conflict. -/
def tempMemo : Backend Question (List (Question × Bool)) where
  usable := memoDepth
  lookup m q := m.lookup q
  store m q b := if (m.lookup q).isSome then some m else some ((q, b) :: m)

/-- The memo in a session variable, with its entry count; a store at the limit raises
`memo_limit_exceeded`, and the limit 0 means none. -/
def gucMemo (maxEntries : ℤ) : Backend Question (List (String × Bool) × ℕ) where
  usable := memoDepth
  lookup m q := m.1.lookup (memoKey q)
  store m q b :=
    if 0 < maxEntries ∧ maxEntries ≤ m.2 then none
    else some ((memoKey q, b) :: m.1, m.2 + 1)

/-- The three memo backends. -/
inductive MemoMode
  | off
  | temp
  | guc (maxEntries : ℤ)
deriving DecidableEq, Repr

/-- The state of a memo backend. -/
def MemoMode.State : MemoMode → Type
  | off => Unit
  | temp => List (Question × Bool)
  | guc _ => List (String × Bool) × ℕ

/-- The operations of a memo backend. -/
def MemoMode.backend : (mode : MemoMode) → Backend Question mode.State
  | off => offMemo
  | temp => tempMemo
  | guc maxEntries => gucMemo maxEntries

/-- The memo of a root check before its first store. -/
def MemoMode.empty : (mode : MemoMode) → mode.State
  | off => ()
  | temp => []
  | guc _ => ([], 0)

theorem offMemo_lawful : offMemo.Lawful where
  lookup_store _ := by simp [offMemo]

theorem tempMemo_lawful : tempMemo.Lawful where
  lookup_store := by
    intro m m' q b hs r c hr
    simp only [tempMemo] at hs hr ⊢
    split at hs
    · obtain rfl := Option.some.inj hs
      exact .inl hr
    · obtain rfl := Option.some.inj hs
      rw [List.lookup_cons] at hr
      by_cases hq : r = q
      · subst hq
        exact .inr ⟨rfl, by simpa using hr.symm⟩
      · exact .inl (by simpa [beq_false_of_ne hq] using hr)

theorem gucMemo_lawful (maxEntries : ℤ) : (gucMemo maxEntries).Lawful where
  lookup_store := by
    intro m m' q b hs r c hr
    simp only [gucMemo] at hs hr ⊢
    split at hs
    · cases hs
    · obtain rfl := Option.some.inj hs
      rw [List.lookup_cons] at hr
      by_cases hq : r = q
      · subst hq
        exact .inr ⟨rfl, by simpa using hr.symm⟩
      · have hk : memoKey r ≠ memoKey q := fun h => hq (memoKey_injective h)
        exact .inl (by simpa [beq_false_of_ne hk] using hr)

theorem MemoMode.backend_lawful : ∀ mode : MemoMode, mode.backend.Lawful
  | off => offMemo_lawful
  | temp => tempMemo_lawful
  | guc maxEntries => gucMemo_lawful maxEntries

theorem MemoMode.lookup_empty (mode : MemoMode) (q : Question) :
    mode.backend.lookup mode.empty q = none := by
  cases mode <;> rfl

/-- Only the memo in a session variable can be full. -/
theorem MemoMode.guc_of_store_none {mode : MemoMode} {m : mode.State} {q : Question} {b : Bool}
    (hs : mode.backend.store m q b = none) : ∃ maxEntries, mode = .guc maxEntries := by
  cases mode with
  | off => simp [MemoMode.backend, offMemo] at hs
  | temp =>
    simp only [MemoMode.backend, tempMemo] at hs
    split at hs <;> cases hs
  | guc maxEntries => exact ⟨maxEntries, rfl⟩

/-- The levels a check may descend: a call deeper than `authz.max_depth` raises. -/
def levels (maxDepth : ℤ) : ℕ := (maxDepth + 1).toNat

/-- `_check_access` from its root, with the memo and the cut counter it ends with. -/
def checkAccessRun (env : CheckEnv) (maxDepth : ℤ) (mode : MemoMode) (q : Question) :
    Except (Halt EngineError) (Bool × (mode.State × ℕ)) :=
  memoSearch mode.backend (fun q => pathKey q.node) (checkAccessImpl env) (levels maxDepth) 0 [] q
    (mode.empty, 0)

/-- `_check_access` from its root. -/
def checkAccess (env : CheckEnv) (maxDepth : ℤ) (mode : MemoMode) (q : Question) :
    Except (Halt EngineError) Bool :=
  (checkAccessRun env maxDepth mode q).map Prod.fst

end PgAuthz
