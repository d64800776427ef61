import Mathlib.Data.List.Basic
import Mathlib.Data.List.Sort

/-!
# The store

The rows the engine reads: model rules, tuples, conditions, and the contextual tuples of a
request. Types, relations and conditions are named by their integer ids, objects and subjects by
texts. The rows are those of one store.

## Main definitions

* `Rule`, `GroupOp`, `RuleBody`: a row of `authz.models`
* `Tuple`, `CtxTuple`: a row of `authz.tuples` and of the temporary table of contextual tuples
* `Condition`: a row of `authz.conditions`
* `visible now`: the tuples that the row policy shows at a statement time
* `orderedRules`: the rules of a relation in evaluation order
-/

namespace PgAuthz

/-- A `jsonb` object: its keys with their serialised values. -/
abbrev Context := List (String × String)

/-- The `jsonb` concatenation `c || {k: v}`. -/
def Context.put (c : Context) (k v : String) : Context :=
  c.filter (fun e => e.1 ≠ k) ++ [(k, v)]

/-- The `jsonb` key test `c ? k`. -/
def Context.hasKey (c : Context) (k : String) : Bool := c.any fun e => e.1 = k

/-- The id of a subject that stands for every subject of its type, or of an object that stands for
every object of its type. -/
def wildcard : String := "*"

/-- The question of a check without its subject: a relation on an object. -/
structure Node where
  relation : ℕ
  objectType : ℕ
  objectId : String
deriving DecidableEq, Repr

/-- A row of `authz.tuples`; times are instants of the database clock. -/
structure Tuple where
  userType : ℕ
  userId : String
  userRelation : Option ℕ
  relation : ℕ
  objectType : ℕ
  objectId : String
  conditionId : Option ℕ
  conditionContext : Option Context
  expiresAt : Option ℤ
deriving DecidableEq, Repr

/-- A row of the temporary table `ctx_tuples`. -/
structure CtxTuple where
  userType : ℕ
  userId : String
  userRelation : Option ℕ
  relation : ℕ
  objectType : ℕ
  objectId : String
deriving DecidableEq, Repr

/-- The composite type `authz._tuple_key`: a direct tuple. -/
structure TupleKey where
  userType : ℕ
  userId : String
  relation : ℕ
  objectType : ℕ
  objectId : String
deriving DecidableEq, Repr

/-- How the rules of a group combine (`group_op`). -/
inductive GroupOp
  | or
  | and
  | exclusion
deriving DecidableEq, Repr

/-- What a rule asks (`rule_type` with its operand columns). -/
inductive RuleBody
  | direct
  | computed (computedRelation : ℕ)
  | ttu (tuplesetRelation tuplesetComputed : ℕ)
deriving DecidableEq, Repr

/-- The constants `_rel_direct`, `_rel_computed` and `_rel_ttu`. -/
def RuleBody.ruleType : RuleBody → ℕ
  | direct => 1
  | computed _ => 2
  | ttu _ _ => 3

/-- A row of `authz.models`. -/
structure Rule where
  objectType : ℕ
  relation : ℕ
  body : RuleBody
  groupId : ℤ
  groupOp : GroupOp
  negated : Bool
deriving DecidableEq, Repr

/-- The condition languages. -/
inductive CondLang
  | sql
  | cel
deriving DecidableEq, Repr

/-- Whose clock a condition sees as `current_time`. -/
inductive TimeSource
  | caller
  | server
deriving DecidableEq, Repr

/-- A row of `authz.conditions`; `required_context` is its two lists of keys. -/
structure Condition where
  id : ℕ
  expression : String
  lang : CondLang
  requiredRequest : List String
  requiredStored : List String
  timeSource : TimeSource
deriving DecidableEq, Repr

/-! ## What the engine reads -/

/-- The row policy `tuples_hide_expired` at a statement time. -/
def Tuple.visibleAt (now : ℤ) (t : Tuple) : Bool :=
  match t.expiresAt with
  | none => true
  | some e => decide (now < e)

/-- The tuples the row policy shows at a statement time. -/
def visible (now : ℤ) (tuples : List Tuple) : List Tuple := tuples.filter (Tuple.visibleAt now)

/-- The order `(group_id, negated, rule_type)` of the rule query. -/
def Rule.order (a b : Rule) : Prop :=
  a.groupId < b.groupId ∨ (a.groupId = b.groupId ∧
    (a.negated < b.negated ∨ (a.negated = b.negated ∧ a.body.ruleType ≤ b.body.ruleType)))

instance : DecidableRel Rule.order := fun _ _ => inferInstanceAs (Decidable (_ ∨ _))

/-- The rules of a relation, in evaluation order. -/
def orderedRules (rules : List Rule) (objectType relation : ℕ) : List Rule :=
  (rules.filter fun ρ => ρ.objectType = objectType ∧ ρ.relation = relation).insertionSort Rule.order

theorem mem_orderedRules {rules : List Rule} {T r : ℕ} {ρ : Rule} :
    ρ ∈ orderedRules rules T r ↔ ρ ∈ rules ∧ ρ.objectType = T ∧ ρ.relation = r := by
  simp [orderedRules, List.mem_insertionSort]

instance : IsTrans Rule Rule.order where
  trans a b c hab hbc := by
    rcases hab with h | ⟨h, h' | ⟨h', h''⟩⟩ <;> rcases hbc with k | ⟨k, k' | ⟨k', k''⟩⟩
    all_goals first
      | exact .inl (by omega)
      | exact .inr ⟨by omega, .inl (lt_trans h' k')⟩
      | exact .inr ⟨by omega, .inl (k' ▸ h')⟩
      | exact .inr ⟨by omega, .inl (h'.symm ▸ k')⟩
      | exact .inr ⟨by omega, .inr ⟨h'.trans k', by omega⟩⟩

instance : Std.Total Rule.order where
  total a b := by
    rcases lt_trichotomy a.groupId b.groupId with h | h | h
    · exact .inl (.inl h)
    · rcases lt_trichotomy a.negated b.negated with k | k | k
      · exact .inl (.inr ⟨h, .inl k⟩)
      · rcases le_total a.body.ruleType b.body.ruleType with l | l
        · exact .inl (.inr ⟨h, .inr ⟨k, l⟩⟩)
        · exact .inr (.inr ⟨h.symm, .inr ⟨k.symm, l⟩⟩)
      · exact .inr (.inr ⟨h.symm, .inl k⟩)
    · exact .inr (.inl h)

theorem pairwise_orderedRules (rules : List Rule) (T r : ℕ) :
    (orderedRules rules T r).Pairwise Rule.order :=
  List.pairwise_insertionSort Rule.order _

end PgAuthz
