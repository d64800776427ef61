import PgAuthz.Engine.Answers
import PgAuthz.Engine.Reach

/-!
# Decisions and pages

A decision is a check followed, if it allows, by the temporal gates of the relation. The listing
functions verify their candidates by decisions, one after the other, until the page is full.

## Main definitions

* `Gate`, `Clause`: a row of `authz.model_gates` and one clause of it
* `eventCheckGates`: `_event_check_gates`
* `decideAccess`: `_decide`
* `page`: the candidates that a listing verifies and returns

## Main results

* `eventCheckGates_of_subject_scoped`: subject-scoped gates do not read the object
* `eventCheckGates_of_not_enforced`, `decideAccess_of_not_enforced`: gates of which none is enforced
  never deny
* `mem_page`, `page_full`: a page holds candidates that were verified, and a page without bounds
  holds all of them
-/

namespace PgAuthz

open Resolution

/-! ## Temporal gates -/

/-- The switch `authz.gates_mode`, and the mode of a gate. -/
inductive GateMode
  | enforce
  | shadow
  | off
deriving DecidableEq, Repr

theorem GateMode.eq_shadow {m : GateMode} (hoff : m ≠ .off) (henforce : m ≠ .enforce) : m = .shadow := by
  cases m with
  | enforce => exact absurd rfl henforce
  | shadow => rfl
  | off => exact absurd rfl hoff

/-- What the events of a clause are filtered by: the subject, or the subject and the object. -/
inductive Scope
  | subject
  | object
deriving DecidableEq, Repr

/-- A clause of a gate: its scope and its `jsonb` text. -/
structure Clause where
  scope : Scope
  spec : String
deriving DecidableEq, Repr

/-- A row of `authz.model_gates`. -/
structure Gate where
  objectType : ℕ
  relation : ℕ
  name : String
  mode : GateMode
  allOf : List Clause
deriving DecidableEq, Repr

/-- The gates of a store, the switch, and the evaluation of a clause for a subject: the relation
asked and the object that the events are filtered by, if any. -/
structure GateEnv where
  gatesMode : GateMode
  modelGates : List Gate
  evalClause : (userType : ℕ) → (userId : String) → (relation : ℕ) →
    (object : Option (ℕ × Option String)) → Clause → Except EngineError Bool

/-- `_event_resolve_gates`: the gates of a relation, by name. -/
def GateEnv.resolve (gt : GateEnv) (objectType relation : ℕ) : List Gate :=
  (gt.modelGates.filter fun g => g.objectType = objectType ∧ g.relation = relation).insertionSort
    fun a b => a.name ≤ b.name

/-- `_event_gates_object_scoped`. -/
def eventGatesObjectScoped (gates : List Gate) : Bool :=
  gates.any fun g => g.allOf.any fun c => c.scope = .object

/-- `_event_eval_clause`: only a clause of object scope reads the object. -/
def eventEvalClause (gt : GateEnv) (userType : ℕ) (userId : String) (relation objectType : ℕ)
    (objectId : Option String) (c : Clause) : Except EngineError Bool :=
  gt.evalClause userType userId relation
    (match c.scope with
      | .object => some (objectType, objectId)
      | .subject => none) c

/-- The loop over the clauses of a gate: a clause that fails denies, unless the gate is in shadow
mode. -/
def checkClauses (eval : Clause → Except EngineError Bool) (shadow : Bool) :
    List Clause → Except EngineError Bool
  | [] => .ok true
  | c :: cs =>
    match eval c with
    | .error e => .error e
    | .ok passed => if !passed && !shadow then .ok false else checkClauses eval shadow cs

/-- The loop over the gates. -/
def checkGates (gatesMode : GateMode) (eval : Clause → Except EngineError Bool) :
    List Gate → Except EngineError Bool
  | [] => .ok true
  | g :: gs =>
    if g.mode = .off then checkGates gatesMode eval gs
    else
      match checkClauses eval (gatesMode = .shadow ∨ g.mode = .shadow) g.allOf with
      | .error e => .error e
      | .ok false => .ok false
      | .ok true => checkGates gatesMode eval gs

/-- `_event_check_gates` over a resolved list of gates. -/
def eventCheckGates (gt : GateEnv) (userType : ℕ) (userId : String) (relation objectType : ℕ)
    (objectId : Option String) (gates : List Gate) : Except EngineError Bool :=
  if gates = [] ∨ gt.gatesMode = .off then .ok true
  else checkGates gt.gatesMode (eventEvalClause gt userType userId relation objectType objectId) gates

theorem checkClauses_congr {eval eval' : Clause → Except EngineError Bool} {shadow : Bool}
    {cs : List Clause} (h : ∀ c ∈ cs, eval c = eval' c) :
    checkClauses eval shadow cs = checkClauses eval' shadow cs := by
  induction cs with
  | nil => rfl
  | cons c cs ih =>
    rw [checkClauses, checkClauses, h c (by simp), ih fun c' hc' => h c' (by simp [hc'])]

theorem checkGates_congr {gatesMode : GateMode} {eval eval' : Clause → Except EngineError Bool}
    {gs : List Gate} (h : ∀ g ∈ gs, ∀ c ∈ g.allOf, eval c = eval' c) :
    checkGates gatesMode eval gs = checkGates gatesMode eval' gs := by
  induction gs with
  | nil => rfl
  | cons g gs ih =>
    rw [checkGates, checkGates, checkClauses_congr (h g (by simp)),
      ih fun g' hg' => h g' (by simp [hg'])]

/-- Gates without a clause of object scope do not read the object. -/
theorem eventCheckGates_of_subject_scoped {gt : GateEnv} {userType : ℕ} {userId : String}
    {relation objectType : ℕ} {gates : List Gate} (hg : eventGatesObjectScoped gates = false)
    (o o' : Option String) :
    eventCheckGates gt userType userId relation objectType o gates =
      eventCheckGates gt userType userId relation objectType o' gates := by
  unfold eventCheckGates
  split
  · rfl
  · refine checkGates_congr fun g hmem c hc => ?_
    have hscope : c.scope = .subject := by
      simp only [eventGatesObjectScoped, List.any_eq_false, List.any_eq_true, not_exists,
        not_and, decide_eq_true_eq] at hg
      have hnot := hg g hmem c hc
      cases hs : c.scope with
      | subject => rfl
      | object => exact absurd hs hnot
    simp [eventEvalClause, hscope]

/-- Gates of which none is enforced never deny. -/
theorem eventCheckGates_of_not_enforced {gt : GateEnv} {userType : ℕ} {userId : String}
    {relation objectType : ℕ} {o : Option String} {gates : List Gate} {b : Bool}
    (hg : gt.gatesMode ≠ .enforce ∨ ∀ g ∈ gates, g.mode ≠ .enforce)
    (hb : eventCheckGates gt userType userId relation objectType o gates = .ok b) : b = true := by
  have hclauses : ∀ (eval : Clause → Except EngineError Bool) cs b,
      checkClauses eval true cs = .ok b → b = true := by
    intro eval cs
    induction cs with
    | nil =>
      intro b h
      cases h
      rfl
    | cons c cs ih =>
      intro b h
      rw [checkClauses] at h
      cases hc : eval c with
      | error e => simp [hc] at h
      | ok passed =>
        rw [hc] at h
        simp only [Bool.not_true, Bool.and_false, Bool.false_eq_true, if_false] at h
        exact ih b h
  have hgates : ∀ (eval : Clause → Except EngineError Bool) gs b, gt.gatesMode ≠ .off →
      (gt.gatesMode ≠ .enforce ∨ ∀ g ∈ gs, g.mode ≠ .enforce) →
      checkGates gt.gatesMode eval gs = .ok b → b = true := by
    intro eval gs
    induction gs with
    | nil =>
      intro b _ _ h
      cases h
      rfl
    | cons g gs ih =>
      intro b hoff hne h
      have hne' : gt.gatesMode ≠ .enforce ∨ ∀ g ∈ gs, g.mode ≠ .enforce :=
        hne.imp_right fun h g hg => h g (by simp [hg])
      rw [checkGates] at h
      split at h
      · exact ih b hoff hne' h
      · rename_i hgoff
        -- the gate runs in shadow mode
        have hshadow : decide (gt.gatesMode = .shadow ∨ g.mode = .shadow) = true := by
          rw [decide_eq_true_eq]
          rcases hne with hne | hne
          · exact .inl (GateMode.eq_shadow hoff hne)
          · exact .inr (GateMode.eq_shadow hgoff (hne g List.mem_cons_self))
        rw [hshadow] at h
        cases hc : checkClauses eval true g.allOf with
        | error e => simp [hc] at h
        | ok passed =>
          obtain rfl := hclauses eval g.allOf passed hc
          rw [hc] at h
          exact ih b hoff hne' h
  unfold eventCheckGates at hb
  split at hb
  · cases hb
    rfl
  · rename_i hcond
    exact hgates _ _ _ (fun h => hcond (.inr h)) hg hb

/-! ## Decisions -/

/-- What a decision reads besides the check: the depth bound, the memo backend and the gates. -/
structure DecideEnv where
  check : CheckEnv
  maxDepth : ℤ
  mode : MemoMode
  gates : GateEnv

/-- `_decide`: the check, and the gates if it allows. `none` stands for gates to be resolved. -/
def decideAccess (env : DecideEnv) (gates : Option (List Gate)) (q : Question) :
    Except (Halt EngineError) Bool :=
  match checkAccess { env.check with exclude := none } env.maxDepth env.mode q with
  | .error e => .error e
  | .ok false => .ok false
  | .ok true =>
    (eventCheckGates env.gates env.check.userType env.check.userId q.node.relation
      q.node.objectType (some q.node.objectId)
      (gates.getD (env.gates.resolve q.node.objectType q.node.relation))).mapError .raised

theorem decideAccess_eq_true {env : DecideEnv} {gates : Option (List Gate)} {q : Question} :
    decideAccess env gates q = .ok true ↔
      checkAccess { env.check with exclude := none } env.maxDepth env.mode q = .ok true ∧
      eventCheckGates env.gates env.check.userType env.check.userId q.node.relation
        q.node.objectType (some q.node.objectId)
        (gates.getD (env.gates.resolve q.node.objectType q.node.relation)) = .ok true := by
  unfold decideAccess
  rcases checkAccess { env.check with exclude := none } env.maxDepth env.mode q with e | b
  · simp
  · cases b with
    | false => simp
    | true =>
      cases eventCheckGates env.gates env.check.userType env.check.userId q.node.relation
        q.node.objectType (some q.node.objectId)
        (gates.getD (env.gates.resolve q.node.objectType q.node.relation)) <;>
        simp [Except.mapError]

/-- No gate of the relation is enforced. -/
def GateEnv.NotEnforced (gt : GateEnv) (n : Node) : Prop :=
  gt.gatesMode ≠ .enforce ∨ ∀ g ∈ gt.resolve n.objectType n.relation, g.mode ≠ .enforce

/-- Without an enforced gate, a decision of an allowing check allows. -/
theorem decideAccess_of_not_enforced (env : DecideEnv) {q : Question} {b : Bool}
    (hg : env.gates.NotEnforced q.node)
    (hc : checkAccess { env.check with exclude := none } env.maxDepth env.mode q = .ok true)
    (hb : decideAccess env none q = .ok b) : b = true := by
  unfold decideAccess at hb
  rw [hc] at hb
  dsimp only at hb
  cases hgate : eventCheckGates env.gates env.check.userType env.check.userId q.node.relation
      q.node.objectType (some q.node.objectId)
      (env.gates.resolve q.node.objectType q.node.relation) with
  | error e =>
    simp [hgate, Except.mapError] at hb
  | ok c =>
    obtain rfl := eventCheckGates_of_not_enforced hg hgate
    simpa [hgate, Except.mapError] using hb.symm

/-! ## Pages -/

/-- The candidates that a listing verifies in order, after `offset` of them and at most `limit`. A
plan that verifies all of them before it sorts returns the same rows or raises. -/
def page {ε : Type} (verify : String → Except ε Bool) :
    ℕ → Option ℕ → List String → Except ε (List String)
  | _, _, [] => .ok []
  | offset, limit, c :: cs =>
    if limit = some 0 then .ok []
    else
      match verify c with
      | .error e => .error e
      | .ok false => page verify offset limit cs
      | .ok true =>
        if 0 < offset then page verify (offset - 1) limit cs
        else (page verify 0 (limit.map (· - 1)) cs).map (c :: ·)

section Page

variable {ε : Type} {verify : String → Except ε Bool}

/-- What a page does with its first candidate: the page is full, or the candidate is verified and
left out, skipped or listed. -/
theorem page_cons {offset : ℕ} {limit : Option ℕ} {c : String} {cs rows : List String}
    (h : page verify offset limit (c :: cs) = .ok rows) :
    (limit = some 0 ∧ rows = []) ∨
      (verify c = .ok false ∧ page verify offset limit cs = .ok rows) ∨
      (verify c = .ok true ∧ 0 < offset ∧ page verify (offset - 1) limit cs = .ok rows) ∨
      (verify c = .ok true ∧ offset = 0 ∧
        ∃ rows', page verify 0 (limit.map (· - 1)) cs = .ok rows' ∧ rows = c :: rows') := by
  rw [page] at h
  split at h
  · rename_i hlimit
    cases h
    exact .inl ⟨hlimit, rfl⟩
  · refine .inr ?_
    rcases hv : verify c with e | b
    · simp [hv] at h
    · rw [hv] at h
      cases b with
      | false => exact .inl ⟨rfl, h⟩
      | true =>
        dsimp only at h
        split at h
        · rename_i hpos
          exact .inr (.inl ⟨rfl, hpos, h⟩)
        · rename_i hzero
          rcases hp : page verify 0 (limit.map (· - 1)) cs with e | rows'
          · rw [hp] at h
            cases h
          · rw [hp] at h
            cases h
            exact .inr (.inr ⟨rfl, by omega, rows', rfl, rfl⟩)

theorem mem_page {offset : ℕ} {limit : Option ℕ} {cs rows : List String}
    (h : page verify offset limit cs = .ok rows) {c : String} (hc : c ∈ rows) :
    c ∈ cs ∧ verify c = .ok true := by
  induction cs generalizing offset limit rows with
  | nil =>
    cases h
    cases hc
  | cons a cs ih =>
    rcases page_cons h with ⟨-, rfl⟩ | ⟨-, ht⟩ | ⟨-, -, ht⟩ | ⟨hv, -, rows', ht, rfl⟩
    · cases hc
    · exact ⟨List.mem_cons_of_mem a (ih ht hc).1, (ih ht hc).2⟩
    · exact ⟨List.mem_cons_of_mem a (ih ht hc).1, (ih ht hc).2⟩
    · rcases List.mem_cons.mp hc with rfl | hc
      · exact ⟨List.mem_cons_self, hv⟩
      · exact ⟨List.mem_cons_of_mem a (ih ht hc).1, (ih ht hc).2⟩

/-- A page without bounds decides every candidate and holds those that are verified. -/
theorem page_full {cs rows : List String} (h : page verify 0 none cs = .ok rows) {c : String}
    (hc : c ∈ cs) : ∃ b, verify c = .ok b ∧ (b = true → c ∈ rows) := by
  induction cs generalizing rows with
  | nil => cases hc
  | cons a cs ih =>
    rcases page_cons h with ⟨hl, -⟩ | ⟨hv, ht⟩ | ⟨-, hpos, -⟩ | ⟨hv, -, rows', ht, rfl⟩
    · cases hl
    · rcases List.mem_cons.mp hc with rfl | hc
      · exact ⟨false, hv, fun h => absurd h Bool.false_ne_true⟩
      · exact ih ht hc
    · exact absurd hpos (Nat.lt_irrefl 0)
    · rcases List.mem_cons.mp hc with rfl | hc
      · exact ⟨true, hv, fun _ => List.mem_cons_self⟩
      · obtain ⟨b, hb, hmem⟩ := ih ht hc
        exact ⟨b, hb, fun h => List.mem_cons_of_mem a (hmem h)⟩

end Page

end PgAuthz
