import PgAuthz.Engine.Decide
import PgAuthz.Opa.Backend
import PgAuthz.Opa.NativeCallback

/-!
# The direct backend and the native handlers

The direct backend answers the calls of an instance by the functions of the engine. The native handlers
answer the calls of the policies, and they run on the direct backend too: what the policies ask is
decoded, and the answer of the direct backend is encoded without its token for the next page.

Lists of the engine find their rows one after the other, and a row may fail. The direct backend reads
one row more than a page holds. Behind the policies the page already holds that row, and one more is
read.

## Main definitions

* `Scan`, `Scan.limited`: the rows of a list and what is read of them
* `Engine`: the answers of the engine at one state of the database
* `Engine.direct`: the direct backend
* `Deployment`, `Deployment.env`: policies without hooks, and the native handlers behind them

## Main results

* `page_eq_limited`: the pages of the engine are read off the rows
* `Scan.limited_of_succ`, `Scan.limited_succ`: what one row more changes
-/

namespace PgAuthz.Opa

/-! ## Lists of the engine -/

/-- A failure of the engine: an unknown type or relation, or any other one. -/
inductive Fault
  | unknownEntity
  | other
deriving DecidableEq

/-- The rows of a list in their order, up to the failure that ends them if there is one. -/
structure Scan where
  rows : List String
  fault : Option Fault

/-- The first `n` rows. A failure behind them is not met. -/
def Scan.limited (sc : Scan) (n : ℕ) : Except Fault (List String) :=
  if n ≤ sc.rows.length then .ok (sc.rows.take n)
  else match sc.fault with
    | none => .ok sc.rows
    | some f => .error f

/-- The rows that the candidates yield after `offset` of them. -/
def scan (verify : String → Except Fault Bool) : ℕ → List String → Scan
  | _, [] => ⟨[], none⟩
  | offset, c :: cs =>
    match verify c with
    | .error f => ⟨[], some f⟩
    | .ok false => scan verify offset cs
    | .ok true =>
      if 0 < offset then scan verify (offset - 1) cs
      else ⟨c :: (scan verify 0 cs).rows, (scan verify 0 cs).fault⟩

theorem Scan.limited_zero (sc : Scan) : sc.limited 0 = .ok [] := by
  simp [Scan.limited]

theorem Scan.limited_cons (c : String) (sc : Scan) (n : ℕ) :
    (Scan.mk (c :: sc.rows) sc.fault).limited (n + 1) = (sc.limited n).map (c :: ·) := by
  unfold Scan.limited
  by_cases hn : n ≤ sc.rows.length
  · simp [hn, Except.map]
  · simp only [List.length_cons, Nat.add_le_add_iff_right, if_neg hn]
    cases sc.fault <;> rfl

/-- **A page of the engine** is what is read of the rows of its candidates. -/
theorem page_eq_limited (verify : String → Except Fault Bool) (offset n : ℕ) (cs : List String) :
    page verify offset (some n) cs = (scan verify offset cs).limited n := by
  induction cs generalizing offset n with
  | nil =>
    cases n with
    | zero => rfl
    | succ n => rfl
  | cons c cs ih =>
    cases n with
    | zero =>
      rw [Scan.limited_zero]
      simp [page]
    | succ n =>
      simp only [page, scan, Option.some.injEq, Nat.add_eq_zero_iff, one_ne_zero, and_false, if_false]
      cases verify c with
      | error f => rfl
      | ok b =>
        cases b with
        | false => exact ih offset (n + 1)
        | true =>
          dsimp only
          split
          · exact ih (offset - 1) (n + 1)
          · rw [Scan.limited_cons]
            exact congrArg (Except.map (c :: ·)) (ih 0 n)

section Limited

variable {sc : Scan} {n : ℕ} {l : List String}

/-- If one row more can be read, then so can the others. -/
theorem Scan.limited_of_succ (h : sc.limited (n + 1) = .ok l) : sc.limited n = .ok (l.take n) := by
  unfold Scan.limited at h ⊢
  split at h
  · rename_i hn
    cases h
    rw [if_pos (by omega), List.take_take, min_eq_left (Nat.le_succ n)]
  · rename_i hn
    cases hf : sc.fault with
    | some f => simp [hf] at h
    | none =>
      simp only [hf, Except.ok.injEq] at h
      subst h
      split
      · rfl
      · rw [List.take_of_length_le (by omega)]

theorem Scan.length_le_of_limited (h : sc.limited n = .ok l) : l.length ≤ n := by
  unfold Scan.limited at h
  split at h
  · cases h
    exact List.length_take_le n sc.rows
  · cases hf : sc.fault with
    | some f => simp [hf] at h
    | none =>
      simp only [hf, Except.ok.injEq] at h
      subst h
      omega

/-- A failure stays when more is read. -/
theorem Scan.limited_succ_of_error {f : Fault} (h : sc.limited n = .error f) :
    sc.limited (n + 1) = .error f := by
  unfold Scan.limited at h ⊢
  split at h
  · cases h
  · rw [if_neg (by omega)]
    exact h

/-- **One row more**: it is read, or the rows end with a failure after exactly `n` of them. -/
theorem Scan.limited_succ (h : sc.limited n = .ok l) :
    (∃ l', sc.limited (n + 1) = .ok l' ∧ l'.take n = l) ∨
      sc.rows.length = n ∧ sc.rows = l ∧ ∃ f, sc.fault = some f := by
  cases hs : sc.limited (n + 1) with
  | ok l' =>
    left
    rw [Scan.limited_of_succ hs, Except.ok.injEq] at h
    exact ⟨l', rfl, h⟩
  | error f =>
    right
    unfold Scan.limited at h hs
    split at hs
    · cases hs
    · rename_i hn
      cases hf : sc.fault with
      | none => simp [hf] at hs
      | some f' =>
        have hlen : n ≤ sc.rows.length := by
          by_contra hlt
          rw [if_neg hlt, hf] at h
          cases h
        rw [if_pos hlen, Except.ok.injEq] at h
        have heq : sc.rows.length = n := by omega
        refine ⟨heq, ?_, f', rfl⟩
        rw [← h, ← heq, List.take_length]

end Limited

/-! ## The engine -/

/-- Where a list starts: after a number of rows, or after an id. -/
inductive Start
  | offset (n : ℕ)
  | after (id : String)

/--
The answers of the engine at one state of the database. A context that is absent counts as the empty
one, which the size limit on contexts lets pass. A report is the detailed answer to a check.
-/
structure Engine where
  stores : StoreNames
  decide : String → Check → Fields → Except Fault Bool
  explain : String → Check → Fields → Except Fault Fields
  listObjects : String → String → String → String → String → Fields → Start → Scan
  listSubjects : String → String → String → String → String → Fields → Start → Scan
  listActions : String → String → String → String → String → Fields → Except Fault (List String)

/-- `_s`: a call that names no store fails. -/
def Engine.inStore {α : Type} (en : Engine) (s : String) (x : Except Fault α) : Except Fault α :=
  if s ∈ en.stores.names then x else .error .other

/-- The largest value of an `int`. -/
def maxInt : ℤ := 2147483647

/-- The rows of a list call. Its limit and its offset are sent as `int`, and the offset counts where
there is no id to start after. -/
def listRows (rows : Start → Scan) (limit offset : ℤ) (after : String) :
    Except Fault (List String) :=
  if limit < 0 ∨ maxInt < limit ∨ offset < -maxInt - 1 ∨ maxInt < offset then .error .other
  else match unlessEmpty after with
    | some id => (rows (.after id)).limited limit.toNat
    | none =>
      if offset < 0 then .error .other else (rows (.offset offset.toNat)).limited limit.toNat

/-! ## The direct backend -/

namespace Engine

variable (en : Engine)

/-- `CheckAccess`. -/
def checkAccess (s : String) (check : Check) (context : Option Fields) : Except Fault Bool :=
  en.inStore s (en.decide s check (context.getD []))

/-- `CheckAccessDetailed`: the decision of the report, and its other fields without the store. -/
def checkAccessDetailed (s : String) (check : Check) (context : Option Fields) :
    Except Fault (Bool × Fields) := do
  let report ← en.inStore s (en.explain s check (context.getD []))
  return (asBool (report.lookup "decision"),
    report.filter fun f => f.1 ≠ "decision" ∧ f.1 ≠ "store")

/-- `CheckAccessBatch`. A check that is not decided is reported as refused. -/
def checkAccessBatch (s : String) (checks : List (Check × Option Fields))
    (shared : Option Fields) (semantic : String) : Except Fault (List Bool) :=
  match if s ∈ en.stores.names ∧ semantic ≠ "" then readSemantic semantic else none with
  | none => .error .other
  | some stop =>
    match runChecks (fun c => (en.checkAccess s c.1 (mergeContext shared c.2)).toOption) stop checks with
    | none => .error .other
    | some results => .ok (results.map (·.getD false))

/-- An unknown type or relation has no rows. -/
def noEntity {α : Type} (empty : α) : Except Fault α → Except Fault α
  | .error .unknownEntity => .ok empty
  | x => x

/-- `pageParams`. -/
def pageParams : Option PageRequest → ℤ × ℤ × String
  | none => (100, 0, "")
  | some page => (page.limit, page.offset, page.after)

/-- The page of a list. One row more is read to see if there are more. -/
def listPage (s : String) (rows : Start → Scan) (page : Option PageRequest) : Except Fault Reply := do
  let (limit, offset, after) := pageParams page
  let ids ← noEntity [] (en.inStore s (listRows rows (limit + 1) offset after))
  return buildPage ids limit

/-- `ListResources`. -/
def listResources (s subjectType subjectID action objectType : String) (context : Option Fields)
    (page : Option PageRequest) : Except Fault Reply :=
  en.listPage s (en.listObjects s subjectType subjectID action objectType (context.getD [])) page

/-- `ListSubjects`. -/
def findSubjects (s subjectType action objectType objectID : String) (context : Option Fields)
    (page : Option PageRequest) : Except Fault Reply :=
  en.listPage s (en.listSubjects s subjectType action objectType objectID (context.getD [])) page

/-- `ListActions`. -/
def findActions (s subjectType subjectID objectType objectID : String) (context : Option Fields) :
    Except Fault (List String) :=
  noEntity [] (en.inStore s
    (en.listActions s subjectType subjectID objectType objectID (context.getD [])))

end Engine

/-- The check of a request. -/
def EvalRequest.check (req : EvalRequest) : Check :=
  ⟨req.subjectType, req.subjectID, req.action, req.objectType, req.objectID⟩

/-- The direct backend. -/
def Engine.direct (en : Engine) : Call → Except Fault Reply
  | .check s req => do return .decision (← en.checkAccess s req.check req.context)
  | .detailed s req => do
    let r ← en.checkAccessDetailed s req.check req.context
    return .report r.1 (some r.2)
  | .batch s reqs globalContext semantic => do
    return .decisions (← en.checkAccessBatch s (reqs.map fun req => (req.check, req.context))
      globalContext semantic)
  | .resources s q context page =>
    en.listResources s q.subjectType q.subjectID q.action q.objectType context page
  | .subjects s q context page =>
    en.findSubjects s q.subjectType q.action q.objectType q.objectID context page
  | .actions s q context => do
    return .names (← en.findActions s q.subjectType q.subjectID q.objectType q.objectID context)

/-! ## The native handlers -/

/-- The ids of an answer. The token of the next page is left behind. -/
def Reply.listed : Reply → List String
  | .ids l _ => l
  | _ => []

/-- `pageReq`: a limit that is not positive asks for no page. -/
def pageReq : Window → Option PageRequest
  | .offset limit offset => if h : 0 < limit then some ⟨limit, offset, "", h⟩ else none
  | .after limit after => if h : 0 < limit then some ⟨limit, 0, after, h⟩ else none

/--
Policies without hooks, a backend that asks them without a token, and the callback listener. The
policies are given with what they get from a callback that reaches no store. The listener demands a role
of searches if one is configured; the policies have none.
-/
structure Deployment where
  policies : DetailEnv
  backend : Backend
  native : NativeConfig
  searchRequiredRole : String
  no_global_hooks : policies.globalHooks = []
  no_store_hooks : ∀ s, policies.storeHooks s = []
  no_token : backend.forwardToken = false

namespace Deployment

variable (d : Deployment) (en : Engine)

/-- The store that a callback is answered for, none if it is refused or reaches another endpoint. -/
def reach (call : NativeCall) (s : String) : Option String :=
  (nativeCallback d.native en.stores call s).bind fun r =>
    if r.2 = call.suffix then some r.1 else none

/-- The handler of object lists. -/
def nativeListObjects (s : String) (subjectType subjectId action objectType : Json)
    (context : Option Json) (page : Option PageRequest) : Option (List String) := do
  let subjectType ← nativeString subjectType
  let subjectId ← nativeString subjectId
  let action ← nativeString action
  let objectType ← nativeString objectType
  let context ← nativeContext context
  if d.searchRequiredRole ≠ "" ∨ subjectType = "" ∨ subjectId = "" ∨ action = "" ∨ objectType = ""
  then none
  else
    let reply ← (en.listResources s subjectType subjectId action objectType context page).toOption
    return reply.listed

/-- The handler of subject lists, as the policies call it. -/
def nativeListSubjects (s : String) (subjectType action objectType objectId : Json)
    (page : Option PageRequest) : Option (List String) := do
  let subjectType ← nativeString subjectType
  let action ← nativeString action
  let objectType ← nativeString objectType
  let objectId ← nativeString objectId
  if d.searchRequiredRole ≠ "" ∨ subjectType = "" ∨ action = "" ∨ objectType = "" ∨ objectId = ""
  then none
  else
    let reply ← (en.findSubjects s subjectType action objectType objectId none page).toOption
    return reply.listed

/-- The handler of action lists. It demands no role. -/
def nativeListActions (s : String) (subjectType subjectId objectType objectId : Json)
    (context : Option Json) : Option (List String) := do
  let subjectType ← nativeString subjectType
  let subjectId ← nativeString subjectId
  let objectType ← nativeString objectType
  let objectId ← nativeString objectId
  let context ← nativeContext context
  if subjectType = "" ∨ subjectId = "" ∨ objectType = "" ∨ objectId = "" then none
  else (en.findActions s subjectType subjectId objectType objectId context).toOption

/-- The policies with the native handlers behind them. Nothing is cached. -/
def env : DetailEnv :=
  { d.policies with
    decide := fun s check context =>
      match d.reach en .check s with
      | some name => (en.checkAccess name check context).toOption
      | none => d.policies.decide s check context
    decideDetailed := fun s check context =>
      match d.reach en .check s with
      | some name => (en.checkAccessDetailed name check context).toOption
      | none => d.policies.decideDetailed s check context
    listObjects := fun s st sid action rt context =>
      match d.reach en .listObjects s with
      | some name => (d.nativeListObjects en name st sid action rt context none).map List.toFinset
      | none => d.policies.listObjects s st sid action rt context
    listObjectsPage := fun s st sid action rt context w =>
      match d.reach en .listObjects s with
      | some name => d.nativeListObjects en name st sid action rt context (pageReq w)
      | none => d.policies.listObjectsPage s st sid action rt context w
    listSubjects := fun s st action rt rid =>
      match d.reach en .listSubjects s with
      | some name => (d.nativeListSubjects en name st action rt rid none).map List.toFinset
      | none => d.policies.listSubjects s st action rt rid
    listSubjectsPage := fun s st action rt rid w =>
      match d.reach en .listSubjects s with
      | some name => d.nativeListSubjects en name st action rt rid (pageReq w)
      | none => d.policies.listSubjectsPage s st action rt rid w
    listActions := fun s st sid rt rid context =>
      match d.reach en .listActions s with
      | some name => (nativeListActions en name st sid rt rid context).map List.toFinset
      | none => d.policies.listActions s st sid rt rid context }

/-- A store of the engine is reached. -/
theorem reach_of_mem {call : NativeCall} {s : String} (hs : s ∈ en.stores.names)
    (hread : call.suffix ∈ readRoutes) : d.reach en call s = some s := by
  have hroute : call.suffix ∈ callbackRoutes (d.native.callback call).writer :=
    List.mem_append_left _ hread
  rw [reach, nativeCallback_of_mem hs hroute]
  simp

end Deployment

end PgAuthz.Opa
