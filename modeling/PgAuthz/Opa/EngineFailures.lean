import PgAuthz.Opa.Backend

/-!
# Failures of the engine behind the policies

The policies ask the engine by a callback. A callback that fails has no value, and then the rule that
asked has none either, or it has the value of its default. The backend decodes what it gets, and it takes
a rule without a value for a negative answer: a refusal, an empty report, the end of an enumeration, no
action. Only the batch has no value to fall back to.

## Main definitions

* `Call.Unanswered`: the callback of a call has failed
* `SamePolicies`: two environments that differ in what the engine answers
* `Backend.Depends`: with another answer of the engine the call would have been answered otherwise
* `Call.negative`: what a call answers without a value of its rule

## Main results

* `run_of_unanswered`: after a failed callback the answer is the negative one, or it does not depend on
  the engine
* `failure_surfaces_iff`: a failed callback that matters becomes an error exactly in a batch
-/

namespace PgAuthz.Opa

/-! ## Failed callbacks -/

/-- The callback of a call has failed. -/
def Call.Unanswered (e : DetailEnv) (i : Input) : Call → Prop
  | .check .. => graphCheck e.toEnv i = none
  | .detailed .. => graphDetailed e i = none
  | .batch .. => graphEvaluations e.toEnv i = none
  | .resources _ _ _ none => graphObjects e.toEnv i = none
  | .resources _ _ _ (some page) => graphObjectsPage e.toEnv i (pageInput page) = none
  | .subjects _ _ _ none => graphSubjects e.toEnv i = none
  | .subjects _ _ _ (some page) => graphSubjectsPage e.toEnv i (pageInput page) = none
  | .actions .. => graphPermittedActions e.toEnv i = none

/-- The environment in which the engine answers nothing. -/
def DetailEnv.failing (e : DetailEnv) : DetailEnv :=
  { e with
    decide := fun _ _ _ => none
    decideWithTuples := fun _ _ _ _ => none
    listObjects := fun _ _ _ _ _ _ => none
    listObjectsPage := fun _ _ _ _ _ _ _ => none
    listSubjects := fun _ _ _ _ _ => none
    listSubjectsPage := fun _ _ _ _ _ _ => none
    listActions := fun _ _ _ _ _ _ => none
    decideDetailed := fun _ _ _ => none }

/-- The two differ in the answers of the engine only. -/
def SamePolicies (e e' : DetailEnv) : Prop :=
  e.failing = e'.failing

/-- Had the engine answered otherwise, the call would have been answered otherwise. -/
def Backend.Depends (b : Backend) (ctx : CallContext) (e : DetailEnv) (call : Call) : Prop :=
  ∃ e', SamePolicies e e' ∧ b.run ctx e' call ≠ b.run ctx e call

/-- The call is a batch. -/
def Call.IsBatch : Call → Prop
  | .batch .. => True
  | _ => False

/-- What a call answers if its rule has no value. -/
def Call.negative : Call → Except BackendError Reply
  | .check .. => .ok (.decision false)
  | .detailed .. => .ok (.report false none)
  | .batch .. => .error .unexpectedShape
  | .resources .. | .subjects .. => .ok (.ids [] none)
  | .actions .. => .ok (.names [])

/-! ## What the policies know without the engine -/

section Policies

variable (e : DetailEnv) (i : Input)

theorem subjectValid_failing : subjectValid e.failing.toEnv i = subjectValid e.toEnv i := rfl

theorem subjectSearchValid_failing :
    subjectSearchValid e.failing.toEnv i = subjectSearchValid e.toEnv i := rfl

theorem hooksLoaded_failing : hooksLoaded e.failing.toEnv i = hooksLoaded e.toEnv i := rfl

theorem hookDenials_failing : hookDenials e.failing.toEnv i = hookDenials e.toEnv i := rfl

theorem hooksPass_failing : hooksPass e.failing.toEnv i = hooksPass e.toEnv i := rfl

theorem enumerationRefused_failing :
    enumerationRefused e.failing.toEnv i = enumerationRefused e.toEnv i := rfl

end Policies

variable {e e' : DetailEnv} {i : Input} {b : Backend} {ctx : CallContext} {call : Call}

/-- A hook denies the detailed decision before the engine is asked. -/
theorem allowDetailed_of_unanswered (h : graphDetailed e i = none) :
    allowDetailed e i = none ∨ ∀ e', SamePolicies e e' → allowDetailed e' i = allowDetailed e i := by
  by_cases hpass : hooksPass e.toEnv i = true
  · left
    simp [allowDetailed, hpass, h]
  · right
    intro e' hsame
    have hpass' : hooksPass e'.toEnv i ≠ true := by
      rw [← hooksPass_failing, ← hsame, hooksPass_failing]
      exact hpass
    simp only [allowDetailed, if_neg hpass, if_neg hpass']
    rw [← subjectValid_failing e', ← hooksLoaded_failing e', ← hookDenials_failing e', ← hsame]
    rfl

/-- A batch without decisions has no granted entry that a hook could veto, and no value. -/
theorem evaluations_of_unanswered {e : Env} (h : graphEvaluations e i = none) :
    evaluations e i = none := by
  have hdenials : allBatchHookDenials e i = [] := by
    rw [allBatchHookDenials, h]
  simp [evaluations, hdenials, h]

/-- The action search without its list. -/
theorem permittedActions_of_unanswered {e : Env} (h : graphPermittedActions e i = none) :
    permittedActions e i = none ∨ permittedActions e i = some ∅ := by
  unfold permittedActions
  split
  · exact .inl rfl
  · exact .inl h
  · right
    simp [h]

/-- A search rule without its list. -/
def unlisted (refused : Bool) : Option Answer :=
  if refused then some .refused else none

theorem accessibleObjects_of_unanswered {e : Env} (h : graphObjects e i = none) :
    accessibleObjects e i = unlisted (enumerationRefused e i) := by
  simp [accessibleObjects, unlisted, h]

theorem accessibleObjectsPage_of_unanswered {e : Env} {page : Page} (hpage : i.page = some page)
    (h : graphObjectsPage e i page = none) :
    accessibleObjectsPage e i = unlisted (enumerationRefused e i) := by
  simp [accessibleObjectsPage, unlisted, hpage, h]

theorem accessibleSubjects_of_unanswered {e : Env} (h : graphSubjects e i = none) :
    accessibleSubjects e i = unlisted (enumerationRefused e i) := by
  simp [accessibleSubjects, unlisted, h]

theorem accessibleSubjectsPage_of_unanswered {e : Env} {page : Page} (hpage : i.page = some page)
    (h : graphSubjectsPage e i page = none) :
    accessibleSubjectsPage e i = unlisted (enumerationRefused e i) := by
  simp [accessibleSubjectsPage, unlisted, hpage, h]

/-! ## What the backend makes of it -/

theorem buildPage_nil {limit : ℤ} (h : 0 < limit) : buildPage [] limit = .ids [] none := by
  have hnot : ¬ limit < 0 := not_lt.mpr h.le
  simp [buildPage, hnot]

/-- What the backend makes of a search rule without its list: the end of the enumeration. -/
def exhausted (refused : Bool) : Except BackendError Reply :=
  if refused then .error .enumerationRefused else .ok (.ids [] none)

theorem search_set_unlisted {refused : Bool} {paged : Option Answer} :
    b.search none (unlisted refused) paged = exhausted refused := by
  cases refused with
  | false => rfl
  | true => rfl

theorem search_page_unlisted {refused : Bool} {p : PageRequest} {set : Option Answer} :
    b.search (some p) set (unlisted refused) = exhausted refused := by
  cases refused with
  | false => exact congrArg Except.ok (buildPage_nil p.limit_pos)
  | true => rfl

/-- The mode of a search is a matter of the policies. -/
theorem exhausted_or (hrun : ∀ e', SamePolicies e e' → enumerationRefused e'.toEnv i = true →
      b.run ctx e' call = .error .enumerationRefused)
    (h : b.run ctx e call = exhausted (enumerationRefused e.toEnv i)) :
    b.run ctx e call = .ok (.ids [] none) ∨
      ∀ e', SamePolicies e e' → b.run ctx e' call = b.run ctx e call := by
  cases hrefused : enumerationRefused e.toEnv i with
  | false =>
    left
    rw [h, hrefused]
    rfl
  | true =>
    right
    intro e' hsame
    have hrefused' : enumerationRefused e'.toEnv i = true := by
      rw [← enumerationRefused_failing, ← hsame, enumerationRefused_failing, hrefused]
    rw [hrun e' hsame hrefused', h, hrefused]
    rfl

/-- Where enumeration is refused, the backend reports it for any answer of the engine. -/
theorem run_resources_refused {s : String} {q : ResourceQuery} {c : Option Fields}
    {page : Option PageRequest}
    (h : enumerationRefused e.toEnv (b.send ctx (Call.resources s q c page).input) = true) :
    b.run ctx e (.resources s q c page) = .error .enumerationRefused := by
  have hset : accessibleObjects e.toEnv (b.send ctx (Call.resources s q c page).input) =
      some .refused := by
    simp [accessibleObjects, h]
  have hpage : accessibleObjectsPage e.toEnv (b.send ctx (Call.resources s q c page).input) =
      some .refused := by
    simp [accessibleObjectsPage, h]
  simp only [Backend.run, hset, hpage]
  cases page with
  | none => rfl
  | some _ => rfl

theorem run_subjects_refused {s : String} {q : SubjectQuery} {c : Option Fields}
    {page : Option PageRequest}
    (h : enumerationRefused e.toEnv (b.send ctx (Call.subjects s q c page).input) = true) :
    b.run ctx e (.subjects s q c page) = .error .enumerationRefused := by
  have hset : accessibleSubjects e.toEnv (b.send ctx (Call.subjects s q c page).input) =
      some .refused := by
    simp [accessibleSubjects, h]
  have hpage : accessibleSubjectsPage e.toEnv (b.send ctx (Call.subjects s q c page).input) =
      some .refused := by
    simp [accessibleSubjectsPage, h]
  simp only [Backend.run, hset, hpage]
  cases page with
  | none => rfl
  | some _ => rfl

/-- **After a failed callback a call is answered negatively, or its answer does not depend on the
engine.** -/
theorem run_of_unanswered (h : call.Unanswered e (b.send ctx call.input)) :
    b.run ctx e call = call.negative ∨
      ∀ e', SamePolicies e e' → b.run ctx e' call = b.run ctx e call := by
  cases call with
  | check s req =>
    left
    have hallow : allow e.toEnv (b.send ctx (Call.check s req).input) = false := by
      have hgraph : graphCheck e.toEnv (b.send ctx (Call.check s req).input) = none := h
      simp [allow, graphAllow, hgraph]
    simp only [Backend.run, hallow]
    rfl
  | detailed s req =>
    rcases allowDetailed_of_unanswered h with hnone | hsame
    · left
      simp only [Backend.run, hnone]
      rfl
    · right
      intro e' he'
      simp only [Backend.run, hsame e' he']
  | batch s reqs c semantic =>
    left
    simp only [Backend.run, evaluations_of_unanswered h]
    rfl
  | resources s q c page =>
    refine exhausted_or (fun e' _ => run_resources_refused) ?_
    cases page with
    | none =>
      simp only [Backend.run, accessibleObjects_of_unanswered h]
      exact search_set_unlisted
    | some p =>
      simp only [Backend.run, accessibleObjectsPage_of_unanswered rfl h]
      exact search_page_unlisted
  | subjects s q c page =>
    refine exhausted_or (fun e' _ => run_subjects_refused) ?_
    cases page with
    | none =>
      simp only [Backend.run, accessibleSubjects_of_unanswered h]
      exact search_set_unlisted
    | some p =>
      simp only [Backend.run, accessibleSubjectsPage_of_unanswered rfl h]
      exact search_page_unlisted
  | actions s q c =>
    left
    rcases permittedActions_of_unanswered h with hnone | hempty
    · simp only [Backend.run, hnone]
      rfl
    · simp only [Backend.run, hempty]
      simp [query]
      rfl

theorem negative_eq_error_iff : (∃ err, call.negative = .error err) ↔ call.IsBatch := by
  cases call with
  | batch => exact ⟨fun _ => trivial, fun _ => ⟨_, rfl⟩⟩
  | _ => exact ⟨fun ⟨_, h⟩ => (by cases h), fun h => h.elim⟩

/-- A failed callback on which the answer depends is reported as an error. -/
def Backend.Surfaces (b : Backend) (ctx : CallContext) (e : DetailEnv) (call : Call) : Prop :=
  call.Unanswered e (b.send ctx call.input) → b.Depends ctx e call →
    ∃ err, b.run ctx e call = .error err

/-- **A failed callback on which the answer depends becomes an error exactly in a batch.** Every other
call is answered negatively. -/
theorem failure_surfaces_iff (h : call.Unanswered e (b.send ctx call.input))
    (hdep : b.Depends ctx e call) : (∃ err, b.run ctx e call = .error err) ↔ call.IsBatch := by
  obtain ⟨e', hsame, hne⟩ := hdep
  rcases run_of_unanswered h with hneg | hindep
  · rw [hneg]
    exact negative_eq_error_iff
  · exact absurd (hindep e' hsame) hne

/-! ## An outage -/

/-- Policies without hooks that trust their caller, and an engine that answers every check or none. -/
def reachable (up : Bool) : DetailEnv where
  config := ⟨none, false, false, false, false, none⟩
  now := .null
  authn := fun _ => none
  globalHooks := []
  storeHooks := fun _ => []
  decide := fun _ _ _ => if up then some true else none
  decideWithTuples := fun _ _ _ _ => none
  listObjects := fun _ _ _ _ _ _ => none
  listObjectsPage := fun _ _ _ _ _ _ _ => none
  listSubjects := fun _ _ _ _ _ => none
  listSubjectsPage := fun _ _ _ _ _ _ => none
  listActions := fun _ _ _ _ _ _ => none
  decideDetailed := fun _ _ _ => none

/-- The parts of a request about a user who reads a document. -/
def userPart : Part := ⟨"user", by decide⟩

def readPart : Part := ⟨"read", by decide⟩

def docPart : Part := ⟨"doc", by decide⟩

def onePart : Part := ⟨"1", by decide⟩

/-- A check of a store. -/
def readCall : Call :=
  .check "docs" ⟨userPart, ⟨"alice", by decide⟩, readPart, docPart, onePart, none⟩

/-- A backend that does not forward tokens. -/
def trusted : Backend := ⟨false, "prod", some⟩

theorem hooksPass_reachable (up : Bool) (i : Input) : hooksPass (reachable up).toEnv i = true := by
  have hguard : guarded (reachable up).toEnv i = false := by
    have hloaded : hooked (reachable up).toEnv i = false := by
      unfold hooked hooksLoaded
      cases store (reachable up).toEnv i with
      | none => rfl
      | some s => simp [reachable]
    simp [guarded, hloaded]
  exact (hooksPass_iff _ _).mpr ⟨hguard, fun hi _ => rfl⟩

/-- The check is answered as the engine says, and refused while the engine does not answer. -/
theorem run_readCall (up : Bool) :
    trusted.run ⟨"", .null⟩ (reachable up) readCall = .ok (.decision up) := by
  have hallow : allow (reachable up).toEnv (trusted.send ⟨"", .null⟩ readCall.input) = up := by
    rw [allow, hooksPass_reachable, Bool.and_true]
    cases up with
    | false => rfl
    | true => rfl
  exact congrArg (fun d => Except.ok (Reply.decision d)) hallow

theorem readCall_unanswered :
    readCall.Unanswered (reachable false) (trusted.send ⟨"", .null⟩ readCall.input) := rfl

theorem readCall_depends : trusted.Depends ⟨"", .null⟩ (reachable false) readCall := by
  refine ⟨reachable true, rfl, ?_⟩
  rw [run_readCall, run_readCall]
  simp

theorem failure_surfaces_readCall :
    (readCall.Unanswered (reachable false) (trusted.send ⟨"", .null⟩ readCall.input) ∧
      trusted.Depends ⟨"", .null⟩ (reachable false) readCall) ∧
    ((∃ err, trusted.run ⟨"", .null⟩ (reachable false) readCall = .error err) ↔
      readCall.IsBatch) :=
  ⟨⟨readCall_unanswered, readCall_depends⟩,
    failure_surfaces_iff readCall_unanswered readCall_depends⟩

/-- **A check is refused while the engine is down.** -/
theorem failure_refuses_readCall :
    ¬ ∀ (b : Backend) (ctx : CallContext) (e : DetailEnv) (call : Call), b.Surfaces ctx e call := by
  intro h
  obtain ⟨err, herr⟩ := h trusted ⟨"", .null⟩ (reachable false) readCall readCall_unanswered
    readCall_depends
  rw [run_readCall] at herr
  cases herr

end PgAuthz.Opa
