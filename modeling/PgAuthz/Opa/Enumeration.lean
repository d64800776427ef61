import PgAuthz.Opa.Policy

/-!
# Searches with policy hooks

A search lists what the graph allows. With hooks mounted an unfiltered list would name objects that a
decision refuses, so that a search is refused, unless filtering is configured: then each candidate is
put into the hook input and dropped if a hook emits anything for it. Action searches are always
filtered.

These checks are written next to the aggregation of the decision and differ from it. A candidate is
dropped for any emitted value, a decision is vetoed by a text or an object only. The action search does
not know the environment guard. The subject search lists without the context of the request, which a
decision uses.

## Main definitions

* `enumerationFiltering`, `enumerationRefused`: the mode of a search
* `permittedActions`, `accessibleObjects`, `accessibleSubjects` and the pages: the search rules
* `ListsAgree`: everything that the engine lists it also allows
* `AgreesWithAllow`: vetoes and filtered searches agree with the decision
* `Sighted`: where they do

## Main results

* `agreesWithAllow_iff`: vetoes and filtered searches agree with the decision exactly where each emitted
  denial is one that the decision sees too
-/

namespace PgAuthz.Opa

variable (e : Env) (i : Input)

/-! ## The mode of a search -/

/-- Candidates are filtered. -/
def enumerationFiltering : Bool :=
  hooked e i && e.config.hookFilteredEnumeration && !guarded e i &&
    e.config.hookFilterMaxCandidates.isSome

/-- Searches are refused, also where filtering is configured and cannot work. -/
def enumerationRefused : Bool :=
  (hooked e i && !e.config.allowUnfilteredEnumeration && !enumerationFiltering e i) ||
    (hooked e i && e.config.hookFilteredEnumeration && !enumerationFiltering e i)

/-- The caller of a subject search: a verified token, or no token where none is required. -/
def subjectSearchValid : Bool :=
  if holds i.token then (caller e i).isSome else !e.config.requireTokenForReads

/-! ## Candidates -/

/-- A hook emits something. -/
def deniedAt (hi : HookInput) : Bool :=
  !(emitted e hi).isEmpty

/-- The hook input is defined, and a hook emits something after the substitution. -/
def candidateDenied (subst : HookInput → HookInput) : Bool :=
  match hookInput e i with
  | some hi => deniedAt e (subst hi)
  | none => false

/-- A hook denies the action. -/
def actionHookDenied (action : String) : Bool :=
  candidateDenied e i fun hi => { hi with action := .str action }

/-- The resource with the type of the search and the id of the candidate. -/
def candidateResource (id : String) : Json :=
  .obj [("type", ((i.resource.getD (.obj [])).get? "type").getD (.str "")), ("id", .str id)]

/-- The subject with the type of the search and the id of the candidate. -/
def candidateSubject (id : String) : Json :=
  .obj [("type", i.subjectType.getD (.str "")), ("id", .str id)]

/-- A hook denies the object. -/
def candidateObjectDenied (id : String) : Bool :=
  candidateDenied e i fun hi => { hi with resource := candidateResource i id }

/-- A hook denies the subject. -/
def candidateSubjectDenied (id : String) : Bool :=
  candidateDenied e i fun hi => { hi with subject := candidateSubject i id }

/-! ## Answers -/

/-- The answer of a search rule. -/
inductive Answer
  | refused
  | tooMany
  | ids (ids : List String)
  | page (ids : List String) (hasMore : Bool) (cursor : Option String)

/-- The bound on candidates while filtering is active. -/
def activeCap : Option ℕ :=
  if enumerationFiltering e i then e.config.hookFilterMaxCandidates else none

scoped instance instIsTransText : IsTrans String (· ≤ ·) := inferInstance

scoped instance instAntisymmText : Std.Antisymm fun a b : String => a ≤ b := inferInstance

/-- A set of candidates, filtered while filtering is active. Beyond the bound the answer is refused. -/
def filterSet (denied : String → Bool) (raw : Finset String) : Answer :=
  match activeCap e i with
  | none => .ids (raw.sort (· ≤ ·))
  | some cap =>
    if raw.card > cap then .tooMany
    else .ids ((raw.filter fun id => denied id = false).sort (· ≤ ·))

/-- The part of a page that is consumed. The last entry of a full page only tells that there is more. -/
def consumed (page : Page) (raw : List String) : List String :=
  raw.take (page.limit - 1).toNat

/-- A page of candidates. Its cursor is the last consumed id, also if it is filtered out. -/
def filterPage (denied : String → Bool) (page : Page) (raw : List String) : Answer :=
  match activeCap e i with
  | none => .ids raw
  | some cap =>
    if raw.length > cap then .tooMany
    else .page ((consumed page raw).filter fun id => denied id = false)
      (page.limit ≤ raw.length) (consumed page raw).getLast?

def filterObjects : Finset String → Answer :=
  filterSet e i (candidateObjectDenied e i)

def filterSubjects : Finset String → Answer :=
  filterSet e i (candidateSubjectDenied e i)

def filterObjectsPage : Page → List String → Answer :=
  filterPage e i (candidateObjectDenied e i)

def filterSubjectsPage : Page → List String → Answer :=
  filterPage e i (candidateSubjectDenied e i)

/-! ## The search rules -/

/-- The window that a page asks for. -/
def window (page : Page) : Option Window :=
  match page.after with
  | some id => some (.after page.limit id)
  | none => page.offset.map (.offset page.limit)

/-- The objects that the graph lists. -/
def graphObjects : Option (Finset String) := do
  let s ← store e i
  let st ← subjectType e i
  let sid ← subjectId e i
  let action ← i.action
  let resource ← i.resource
  let rt ← resource.get? "type"
  e.listObjects s st sid action rt (given i.context)

/-- A page of the objects that the graph lists. -/
def graphObjectsPage (page : Page) : Option (List String) := do
  let s ← store e i
  let st ← subjectType e i
  let sid ← subjectId e i
  let action ← i.action
  let resource ← i.resource
  let rt ← resource.get? "type"
  let w ← window page
  e.listObjectsPage s st sid action rt (given i.context) w

/-- The subjects that the graph lists. The list is asked for without the context. -/
def graphSubjects : Option (Finset String) := do
  let s ← store e i
  let st ← i.subjectType
  let action ← i.action
  let resource ← i.resource
  let rt ← resource.get? "type"
  let rid ← resource.get? "id"
  e.listSubjects s st action rt rid

/-- A page of the subjects that the graph lists. -/
def graphSubjectsPage (page : Page) : Option (List String) := do
  let s ← store e i
  let st ← i.subjectType
  let action ← i.action
  let resource ← i.resource
  let rt ← resource.get? "type"
  let rid ← resource.get? "id"
  let w ← window page
  e.listSubjectsPage s st action rt rid w

/-- The actions that the graph lists. -/
def graphPermittedActions : Option (Finset String) := do
  let s ← store e i
  let st ← subjectType e i
  let sid ← subjectId e i
  let resource ← i.resource
  let rt ← resource.get? "type"
  let rid ← resource.get? "id"
  if subjectValid e i then e.listActions s st sid rt rid (given i.context) else none

def accessibleObjects : Option Answer :=
  if enumerationRefused e i then some .refused
  else if subjectValid e i then (graphObjects e i).map (filterObjects e i)
  else none

def accessibleObjectsPage : Option Answer :=
  if enumerationRefused e i then some .refused
  else if subjectValid e i then
    i.page.bind fun page => (graphObjectsPage e i page).map (filterObjectsPage e i page)
  else none

def accessibleSubjects : Option Answer :=
  if enumerationRefused e i then some .refused
  else if subjectSearchValid e i then (graphSubjects e i).map (filterSubjects e i)
  else none

def accessibleSubjectsPage : Option Answer :=
  if enumerationRefused e i then some .refused
  else if subjectSearchValid e i then
    i.page.bind fun page => (graphSubjectsPage e i page).map (filterSubjectsPage e i page)
  else none

/--
The action search. With hooks it is a comprehension over the listed actions, which is empty where the
list is undefined.
-/
def permittedActions : Option (Finset String) :=
  match hooksLoaded e i with
  | none => none
  | some [] => graphPermittedActions e i
  | some (_ :: _) =>
    some (((graphPermittedActions e i).getD ∅).filter fun a => actionHookDenied e i a = false)

/-! ## Single decisions about candidates -/

/-- The same request with the action `a`. -/
def Input.withAction (a : String) : Input :=
  { i with action := some (.str a) }

/-- The same request about the object `id` of the searched type. -/
def Input.withObject (id : String) : Input :=
  { i with resource := some (candidateResource i id) }

/-- The same request about the subject `id` of the searched type. -/
def Input.withSubject (id : String) : Input :=
  { i with subject := some (candidateSubject i id) }

/-- What the engine lists it also allows, at the same arguments. -/
structure ListsAgree : Prop where
  objects : ∀ {s st sid action rt ctx raw}, e.listObjects s st sid action rt ctx = some raw →
    ∀ id ∈ raw, checkAccess e s st sid action rt (.str id) ctx none = some true
  objectsPage : ∀ {s st sid action rt ctx w raw},
    e.listObjectsPage s st sid action rt ctx w = some raw →
    ∀ id ∈ raw, checkAccess e s st sid action rt (.str id) ctx none = some true
  subjects : ∀ {s st action rt rid raw}, e.listSubjects s st action rt rid = some raw →
    ∀ id ∈ raw, checkAccess e s st (.str id) action rt rid none none = some true
  subjectsPage : ∀ {s st action rt rid w raw}, e.listSubjectsPage s st action rt rid w = some raw →
    ∀ id ∈ raw, checkAccess e s st (.str id) action rt rid none none = some true
  actions : ∀ {s st sid rt rid ctx raw}, e.listActions s st sid rt rid ctx = some raw →
    ∀ a ∈ raw, checkAccess e s st sid (.str a) rt rid ctx none = some true

/-- A subject search of a trusted caller: it has no token, and the subjects are its result. -/
structure SubjectSearch : Prop where
  token : holds i.token = false
  subject : i.subject = none
  trusted : e.config.requireTokenForReads = false

/-- Filtering is active and `count` candidates are within the bound. -/
def Filtered (count : ℕ) : Prop :=
  ∃ cap, activeCap e i = some cap ∧ count ≤ cap

/--
Vetoes and filtered searches agree with the decision: an emitted denial makes the decision negative, and
the searches contain exactly the listed candidates whose single decision is positive.
-/
structure AgreesWithAllow : Prop where
  veto : ∀ hi, hookInput e i = some hi → emitted e hi ≠ [] → allow e i = false
  actions : ∀ permitted, permittedActions e i = some permitted → ∀ a, a ∈ permitted ↔
    (∃ listed, graphPermittedActions e i = some listed ∧ a ∈ listed) ∧ allow e (i.withAction a) = true
  objects : subjectValid e i = true → ∀ raw, graphObjects e i = some raw → Filtered e i raw.card →
    ∃ ids, accessibleObjects e i = some (.ids ids) ∧
      ∀ id, id ∈ ids ↔ id ∈ raw ∧ allow e (i.withObject id) = true
  objectsPage : subjectValid e i = true → ∀ page raw, i.page = some page →
    graphObjectsPage e i page = some raw → Filtered e i raw.length →
    ∃ ids more cursor, accessibleObjectsPage e i = some (.page ids more cursor) ∧
      ∀ id, id ∈ ids ↔ id ∈ consumed page raw ∧ allow e (i.withObject id) = true
  subjects : SubjectSearch e i → ∀ raw, graphSubjects e i = some raw → Filtered e i raw.card →
    ∃ ids, accessibleSubjects e i = some (.ids ids) ∧
      ∀ id, id ∈ ids ↔ id ∈ raw ∧ allow e (i.withSubject id) = true
  subjectsPage : SubjectSearch e i → ∀ page raw, i.page = some page →
    graphSubjectsPage e i page = some raw → Filtered e i raw.length →
    ∃ ids more cursor, accessibleSubjectsPage e i = some (.page ids more cursor) ∧
      ∀ id, id ∈ ids ↔ id ∈ consumed page raw ∧ allow e (i.withSubject id) = true

/-! ## Where they agree -/

/--
The decision about a candidate sees what the filter sees. With the guard on, the candidate has to be
denied by a hook. With the guard off, a candidate that no hook denies has to be allowed by the graph,
where the decision has more to go by than the list, and a candidate that the graph allows has to be
denied by no hook or with a text or an object.
-/
structure CandidateSeen (q : Input) (more : Bool) : Prop where
  guard : guarded e q = true → ∀ hi, hookInput e q = some hi → emitted e hi ≠ []
  graph : guarded e q = false → more = true → ∀ hi, hookInput e q = some hi →
    emitted e hi = [] → graphAllow e q = true
  denial : guarded e q = false → graphAllow e q = true → ∀ hi, hookInput e q = some hi →
    emitted e hi = [] ∨ vetoed e hi = true

/--
Every denial that a hook emits for the request or for a listed candidate is one that the decision sees.
Lists of objects and actions do not know contextual tuples, lists of subjects neither these nor the
context.
-/
structure Sighted : Prop where
  veto : guarded e i = false → graphAllow e i = true → ∀ hi, hookInput e i = some hi →
    emitted e hi = [] ∨ vetoed e hi = true
  actions : ∀ listed, graphPermittedActions e i = some listed → ∀ a ∈ listed,
    CandidateSeen e (i.withAction a) (holds i.contextualTuples)
  objects : subjectValid e i = true → ∀ raw, graphObjects e i = some raw → Filtered e i raw.card →
    ∀ id ∈ raw, CandidateSeen e (i.withObject id) (holds i.contextualTuples)
  objectsPage : subjectValid e i = true → ∀ page raw, i.page = some page →
    graphObjectsPage e i page = some raw → Filtered e i raw.length →
    ∀ id ∈ consumed page raw, CandidateSeen e (i.withObject id) (holds i.contextualTuples)
  subjects : SubjectSearch e i → ∀ raw, graphSubjects e i = some raw → Filtered e i raw.card →
    ∀ id ∈ raw, CandidateSeen e (i.withSubject id) (holds i.context || holds i.contextualTuples)
  subjectsPage : SubjectSearch e i → ∀ page raw, i.page = some page →
    graphSubjectsPage e i page = some raw → Filtered e i raw.length →
    ∀ id ∈ consumed page raw,
      CandidateSeen e (i.withSubject id) (holds i.context || holds i.contextualTuples)

variable {e i}

/-! ## Hook inputs of candidates -/

theorem hookInput_withAction (a : String) :
    hookInput e (i.withAction a) = (hookInput e i).map fun hi => { hi with action := .str a } := by
  have hs' : store e (i.withAction a) = store e i := rfl
  have hsub' : hookSubject e (i.withAction a) = hookSubject e i := rfl
  have hact' : hookDecisionActor e (i.withAction a) = hookDecisionActor e i := rfl
  cases hs : store e i <;> cases hsub : hookSubject e i <;> cases hact : hookDecisionActor e i
  all_goals
    simp only [hookInput, hs', hsub', hact', hs, hsub, hact]
    rfl

theorem hookInput_withObject (id : String) :
    hookInput e (i.withObject id) =
      (hookInput e i).map fun hi => { hi with resource := candidateResource i id } := by
  have hs' : store e (i.withObject id) = store e i := rfl
  have hsub' : hookSubject e (i.withObject id) = hookSubject e i := rfl
  have hact' : hookDecisionActor e (i.withObject id) = hookDecisionActor e i := rfl
  cases hs : store e i <;> cases hsub : hookSubject e i <;> cases hact : hookDecisionActor e i
  all_goals
    simp only [hookInput, hs', hsub', hact', hs, hsub, hact]
    rfl

/-- Without a token and a subject of its own the search has the hook input of the single decision. -/
theorem hookInput_withSubject (htok : holds i.token = false) (hsub : i.subject = none) (id : String) :
    hookInput e (i.withSubject id) =
      (hookInput e i).map fun hi => { hi with subject := candidateSubject i id } := by
  have hnew : hookSubject e (i.withSubject id) = some (candidateSubject i id) := by
    simp [hookSubject, subjectId, subjectType, Input.withSubject, htok, candidateSubject]
  have hold : hookSubject e i = some (.obj []) := by
    simp [hookSubject, subjectId, htok, hsub]
  cases hs : store e i <;> cases hact : hookDecisionActor e i
  all_goals
    have hs' : store e (i.withSubject id) = store e i := rfl
    have hact' : hookDecisionActor e (i.withSubject id) = hookDecisionActor e i := rfl
    simp only [hookInput, hs', hact', hs, hact, hnew, hold]
    rfl

/-- The hook input is defined where the subject is. -/
theorem exists_hookInput {s : String} {st sid : Json} (hs : store e i = some s)
    (hv : subjectValid e i = true) (hst : subjectType e i = some st) (hsid : subjectId e i = some sid) :
    ∃ hi, hookInput e i = some hi := by
  obtain ⟨subject, hsubject⟩ : ∃ subject, hookSubject e i = some subject := by
    simp only [hookSubject, hsid, hst, Option.map_some]
    split
    · exact ⟨_, rfl⟩
    · exact ⟨_, rfl⟩
  obtain ⟨actor, hactor⟩ : ∃ actor, hookDecisionActor e i = some actor := by
    by_cases htok : holds i.token = true
    · -- the id of the subject is the one of the caller
      simp only [subjectValid, htok, if_true] at hv
      obtain ⟨c, hc⟩ := Option.isSome_iff_exists.mp hv
      simp only [subjectId, htok, if_true, hc, Option.bind_some] at hsid
      exact ⟨_, by simp only [hookDecisionActor, hc, hsid, Option.map_some]; rfl⟩
    · refine ⟨noActor, ?_⟩
      simp [hookDecisionActor, caller, htok]
  exact ⟨_, by simp only [hookInput, hs, hsubject, hactor]; rfl⟩

/-! ## Listed candidates are allowed by the graph -/

theorem given_eq_none {x : Option Json} (hx : holds x = false) : given x = none := by
  simp [given, hx]

theorem graphAllow_withObject {s : String} {st sid action resource rt : Json} {id : String}
    (hv : subjectValid e i = true) (htuples : holds i.contextualTuples = false)
    (hs : store e i = some s) (hst : subjectType e i = some st) (hsid : subjectId e i = some sid)
    (haction : i.action = some action) (hres : i.resource = some resource)
    (hrt : resource.get? "type" = some rt)
    (hcheck : checkAccess e s st sid action rt (.str id) (given i.context) none = some true) :
    graphAllow e (i.withObject id) = true := by
  have hv' : subjectValid e (i.withObject id) = true := hv
  have hcandidate : (i.withObject id).resource = some (.obj [("type", rt), ("id", .str id)]) := by
    simp [Input.withObject, candidateResource, hres, hrt]
  have hgraph : graphCheck e (i.withObject id) =
      checkAccess e s st sid action rt (.str id) (given i.context) (given i.contextualTuples) := by
    have hs' : store e (i.withObject id) = some s := hs
    have hst' : subjectType e (i.withObject id) = some st := hst
    have hsid' : subjectId e (i.withObject id) = some sid := hsid
    have haction' : (i.withObject id).action = some action := haction
    simp only [graphCheck, hs', hst', hsid', haction', hcandidate]
    rfl
  rw [graphAllow, hv', hgraph, given_eq_none htuples, hcheck]
  rfl

theorem graphAllow_withAction {s : String} {st sid resource rt rid : Json} {a : String}
    (hv : subjectValid e i = true) (htuples : holds i.contextualTuples = false)
    (hs : store e i = some s) (hst : subjectType e i = some st) (hsid : subjectId e i = some sid)
    (hres : i.resource = some resource) (hrt : resource.get? "type" = some rt)
    (hrid : resource.get? "id" = some rid)
    (hcheck : checkAccess e s st sid (.str a) rt rid (given i.context) none = some true) :
    graphAllow e (i.withAction a) = true := by
  have hv' : subjectValid e (i.withAction a) = true := hv
  have hgraph : graphCheck e (i.withAction a) =
      checkAccess e s st sid (.str a) rt rid (given i.context) (given i.contextualTuples) := by
    have hs' : store e (i.withAction a) = some s := hs
    have hst' : subjectType e (i.withAction a) = some st := hst
    have hsid' : subjectId e (i.withAction a) = some sid := hsid
    have hres' : (i.withAction a).resource = some resource := hres
    have haction : (i.withAction a).action = some (.str a) := rfl
    simp only [graphCheck, hs', hst', hsid', hres', haction, Option.bind_eq_bind, Option.bind_some,
      hrt, hrid]
    rfl
  rw [graphAllow, hv', hgraph, given_eq_none htuples, hcheck]
  rfl

theorem graphAllow_withSubject {s : String} {st action resource rt rid : Json} {id : String}
    (hsearch : SubjectSearch e i) (hcontext : holds i.context = false)
    (htuples : holds i.contextualTuples = false) (hs : store e i = some s)
    (hst : i.subjectType = some st) (haction : i.action = some action)
    (hres : i.resource = some resource) (hrt : resource.get? "type" = some rt)
    (hrid : resource.get? "id" = some rid)
    (hcheck : checkAccess e s st (.str id) action rt rid none none = some true) :
    graphAllow e (i.withSubject id) = true := by
  have htok : holds (i.withSubject id).token = false := hsearch.token
  have hsubject : (i.withSubject id).subject = some (.obj [("type", st), ("id", .str id)]) := by
    simp [Input.withSubject, candidateSubject, hst]
  have hv : subjectValid e (i.withSubject id) = true := by
    simp [subjectValid, htok, hsearch.trusted, hsubject]
  have hst' : subjectType e (i.withSubject id) = some st := by
    simp [subjectType, htok, hsubject]
  have hsid : subjectId e (i.withSubject id) = some (.str id) := by
    simp [subjectId, htok, hsubject]
  have hgraph : graphCheck e (i.withSubject id) =
      checkAccess e s st (.str id) action rt rid (given i.context) (given i.contextualTuples) := by
    have hs' : store e (i.withSubject id) = some s := hs
    have haction' : (i.withSubject id).action = some action := haction
    have hres' : (i.withSubject id).resource = some resource := hres
    simp only [graphCheck, hs', hst', hsid, haction', hres', Option.bind_eq_bind, Option.bind_some,
      hrt, hrid]
    rfl
  rw [graphAllow, hv, hgraph, given_eq_none hcontext, given_eq_none htuples, hcheck]
  rfl

/-! ## The filter and the decision -/

theorem deniedAt_eq_false_iff (hi : HookInput) : deniedAt e hi = false ↔ emitted e hi = [] := by
  simp [deniedAt]

/-- **A candidate passes the filter exactly when it is allowed, if the decision sees its denials.** -/
theorem candidate_iff {q : Input} {hi : HookInput} {more : Bool} (hhi : hookInput e q = some hi)
    (hgraph : more = false → graphAllow e q = true) :
    (deniedAt e hi = false ↔ allow e q = true) ↔ CandidateSeen e q more := by
  rw [deniedAt_eq_false_iff, allow_iff]
  constructor
  · intro hagree
    refine ⟨?_, ?_, ?_⟩
    · intro hg hi' hhi' hnil
      obtain rfl : hi = hi' := Option.some.inj (hhi.symm.trans hhi')
      exact absurd (hagree.mp hnil).2.1 (by simp [hg])
    · intro _ _ hi' hhi' hnil
      obtain rfl : hi = hi' := Option.some.inj (hhi.symm.trans hhi')
      exact (hagree.mp hnil).1
    · intro hg hallow hi' hhi'
      obtain rfl : hi = hi' := Option.some.inj (hhi.symm.trans hhi')
      by_contra hnot
      rw [not_or, Bool.not_eq_true] at hnot
      refine hnot.1 (hagree.mpr ⟨hallow, hg, ?_⟩)
      intro hi' hhi'
      obtain rfl : hi = hi' := Option.some.inj (hhi.symm.trans hhi')
      exact hnot.2
  · intro hseen
    constructor
    · intro hnil
      have hg : guarded e q = false := by
        by_contra hg
        exact hseen.guard (by simpa using hg) hi hhi hnil
      refine ⟨?_, hg, ?_⟩
      · cases more with
        | false => exact hgraph rfl
        | true => exact hseen.graph hg rfl hi hhi hnil
      · intro hi' hhi'
        obtain rfl : hi = hi' := Option.some.inj (hhi.symm.trans hhi')
        exact vetoed_of_emitted_nil e hnil
    · rintro ⟨hallow, hg, hveto⟩
      refine (hseen.denial hg hallow hi hhi).resolve_right ?_
      rw [hveto hi hhi]
      exact Bool.false_ne_true

theorem candidateDenied_eq {hi : HookInput} (hhi : hookInput e i = some hi)
    (subst : HookInput → HookInput) : candidateDenied e i subst = deniedAt e (subst hi) := by
  simp only [candidateDenied, hhi]

/-- The candidates that pass a filter are the allowed ones exactly if the filter agrees on each. -/
theorem mem_filter_iff_forall {listed : String → Prop} {denied : String → Bool} {ok : String → Prop} :
    (∀ id, (listed id ∧ denied id = false) ↔ listed id ∧ ok id) ↔
      ∀ id, listed id → (denied id = false ↔ ok id) := by
  refine forall_congr' fun id => ?_
  exact and_congr_right_iff

theorem Filtered.filtering {n : ℕ} (h : Filtered e i n) : enumerationFiltering e i = true := by
  obtain ⟨cap, hcap, -⟩ := h
  by_contra hoff
  simp [activeCap, hoff] at hcap

theorem Filtered.not_refused {n : ℕ} (h : Filtered e i n) : enumerationRefused e i = false := by
  simp [enumerationRefused, h.filtering]

theorem Filtered.filterSet_eq {raw : Finset String} (h : Filtered e i raw.card)
    (denied : String → Bool) :
    filterSet e i denied raw = .ids ((raw.filter fun id => denied id = false).sort (· ≤ ·)) := by
  obtain ⟨cap, hcap, hle⟩ := h
  simp only [filterSet, hcap]
  rw [if_neg (by omega)]

theorem Filtered.filterPage_eq {raw : List String} (h : Filtered e i raw.length)
    (denied : String → Bool) (page : Page) :
    filterPage e i denied page raw =
      .page ((consumed page raw).filter fun id => denied id = false)
        (page.limit ≤ raw.length) (consumed page raw).getLast? := by
  obtain ⟨cap, hcap, hle⟩ := h
  simp only [filterPage, hcap]
  rw [if_neg (by omega)]

theorem set_agrees_iff {answer : Option Answer} {denied : String → Bool} {raw : Finset String}
    {q : String → Input} (h : Filtered e i raw.card)
    (hanswer : answer = some (filterSet e i denied raw)) :
    (∃ ids, answer = some (.ids ids) ∧ ∀ id, id ∈ ids ↔ id ∈ raw ∧ allow e (q id) = true) ↔
      ∀ id ∈ raw, (denied id = false ↔ allow e (q id) = true) := by
  rw [hanswer, h.filterSet_eq]
  simp only [Option.some.injEq, Answer.ids.injEq, exists_eq_left', Finset.mem_sort, Finset.mem_filter]
  exact mem_filter_iff_forall

theorem page_agrees_iff {answer : Option Answer} {denied : String → Bool} {page : Page}
    {raw : List String} {q : String → Input} (h : Filtered e i raw.length)
    (hanswer : answer = some (filterPage e i denied page raw)) :
    (∃ ids more cursor, answer = some (.page ids more cursor) ∧
        ∀ id, id ∈ ids ↔ id ∈ consumed page raw ∧ allow e (q id) = true) ↔
      ∀ id ∈ consumed page raw, (denied id = false ↔ allow e (q id) = true) := by
  rw [hanswer, h.filterPage_eq, ← mem_filter_iff_forall]
  constructor
  · rintro ⟨ids, more, cursor, hpage, hmem⟩
    simp only [Option.some.injEq, Answer.page.injEq] at hpage
    obtain ⟨rfl, -, -⟩ := hpage
    simpa only [List.mem_filter, decide_eq_true_eq] using hmem
  · intro hmem
    exact ⟨_, _, _, rfl, by simpa only [List.mem_filter, decide_eq_true_eq] using hmem⟩

/-! ## The parts of the agreement -/

theorem veto_iff :
    (∀ hi, hookInput e i = some hi → emitted e hi ≠ [] → allow e i = false) ↔
      (guarded e i = false → graphAllow e i = true → ∀ hi, hookInput e i = some hi →
        emitted e hi = [] ∨ vetoed e hi = true) := by
  constructor
  · intro hveto hg hgraph hi hhi
    by_contra hnot
    rw [not_or, Bool.not_eq_true] at hnot
    have hallow : allow e i = true := by
      refine (allow_iff e i).mpr ⟨hgraph, hg, fun hi' hhi' => ?_⟩
      obtain rfl : hi = hi' := Option.some.inj (hhi.symm.trans hhi')
      exact hnot.2
    rw [hveto hi hhi hnot.1] at hallow
    exact Bool.false_ne_true hallow
  · intro hseen hi hhi hne
    by_contra hallow
    rw [Bool.not_eq_false] at hallow
    obtain ⟨hgraph, hg, hveto⟩ := (allow_iff e i).mp hallow
    rcases hseen hg hgraph hi hhi with hnil | hvetoed
    · exact hne hnil
    · rw [hveto hi hhi] at hvetoed
      exact Bool.false_ne_true hvetoed

theorem object_iff {s : String} {st sid action resource rt : Json} {id : String}
    (hv : subjectValid e i = true) (hs : store e i = some s) (hst : subjectType e i = some st)
    (hsid : subjectId e i = some sid) (haction : i.action = some action)
    (hres : i.resource = some resource) (hrt : resource.get? "type" = some rt)
    (hcheck : checkAccess e s st sid action rt (.str id) (given i.context) none = some true) :
    (candidateObjectDenied e i id = false ↔ allow e (i.withObject id) = true) ↔
      CandidateSeen e (i.withObject id) (holds i.contextualTuples) := by
  obtain ⟨hi, hhi⟩ := exists_hookInput hs hv hst hsid
  rw [candidateObjectDenied, candidateDenied_eq hhi]
  refine candidate_iff ?_ fun htuples => ?_
  · rw [hookInput_withObject, hhi]
    rfl
  · exact graphAllow_withObject hv htuples hs hst hsid haction hres hrt hcheck

theorem objects_iff (hl : ListsAgree e) (hv : subjectValid e i = true) {raw : Finset String}
    (hraw : graphObjects e i = some raw) (hf : Filtered e i raw.card) :
    (∃ ids, accessibleObjects e i = some (.ids ids) ∧
        ∀ id, id ∈ ids ↔ id ∈ raw ∧ allow e (i.withObject id) = true) ↔
      ∀ id ∈ raw, CandidateSeen e (i.withObject id) (holds i.contextualTuples) := by
  have hanswer : accessibleObjects e i = some (filterSet e i (candidateObjectDenied e i) raw) := by
    simp [accessibleObjects, hf.not_refused, hv, hraw, filterObjects]
  rw [set_agrees_iff hf hanswer]
  simp only [graphObjects, Option.bind_eq_bind, Option.bind_eq_some_iff] at hraw
  obtain ⟨s, hs, st, hst, sid, hsid, action, haction, resource, hres, rt, hrt, hlist⟩ := hraw
  exact forall₂_congr fun id hid =>
    object_iff hv hs hst hsid haction hres hrt (hl.objects hlist id hid)

theorem objectsPage_iff (hl : ListsAgree e) (hv : subjectValid e i = true) {page : Page}
    {raw : List String} (hpage : i.page = some page) (hraw : graphObjectsPage e i page = some raw)
    (hf : Filtered e i raw.length) :
    (∃ ids more cursor, accessibleObjectsPage e i = some (.page ids more cursor) ∧
        ∀ id, id ∈ ids ↔ id ∈ consumed page raw ∧ allow e (i.withObject id) = true) ↔
      ∀ id ∈ consumed page raw, CandidateSeen e (i.withObject id) (holds i.contextualTuples) := by
  have hanswer : accessibleObjectsPage e i =
      some (filterPage e i (candidateObjectDenied e i) page raw) := by
    simp [accessibleObjectsPage, hf.not_refused, hv, hpage, hraw, filterObjectsPage]
  rw [page_agrees_iff hf hanswer]
  simp only [graphObjectsPage, Option.bind_eq_bind, Option.bind_eq_some_iff] at hraw
  obtain ⟨s, hs, st, hst, sid, hsid, action, haction, resource, hres, rt, hrt, w, -, hlist⟩ := hraw
  exact forall₂_congr fun id hid =>
    object_iff hv hs hst hsid haction hres hrt (hl.objectsPage hlist id (List.mem_of_mem_take hid))

theorem subject_iff {s : String} {st action resource rt rid : Json} {id : String}
    (hsearch : SubjectSearch e i) (hs : store e i = some s) (hst : i.subjectType = some st)
    (haction : i.action = some action) (hres : i.resource = some resource)
    (hrt : resource.get? "type" = some rt) (hrid : resource.get? "id" = some rid)
    (hcheck : checkAccess e s st (.str id) action rt rid none none = some true) :
    (candidateSubjectDenied e i id = false ↔ allow e (i.withSubject id) = true) ↔
      CandidateSeen e (i.withSubject id) (holds i.context || holds i.contextualTuples) := by
  obtain ⟨hi, hhi⟩ : ∃ hi, hookInput e i = some hi := by
    -- without a subject the hook input has the empty one
    have hactor : hookDecisionActor e i = some noActor := by
      simp [hookDecisionActor, caller, hsearch.token]
    have hsubject : hookSubject e i = some (.obj []) := by
      simp [hookSubject, subjectId, hsearch.token, hsearch.subject]
    exact ⟨_, by simp only [hookInput, hs, hsubject, hactor]; rfl⟩
  rw [candidateSubjectDenied, candidateDenied_eq hhi]
  refine candidate_iff ?_ fun hmore => ?_
  · rw [hookInput_withSubject hsearch.token hsearch.subject, hhi]
    rfl
  · rw [Bool.or_eq_false_iff] at hmore
    exact graphAllow_withSubject hsearch hmore.1 hmore.2 hs hst haction hres hrt hrid hcheck

theorem subjects_iff (hl : ListsAgree e) (hsearch : SubjectSearch e i) {raw : Finset String}
    (hraw : graphSubjects e i = some raw) (hf : Filtered e i raw.card) :
    (∃ ids, accessibleSubjects e i = some (.ids ids) ∧
        ∀ id, id ∈ ids ↔ id ∈ raw ∧ allow e (i.withSubject id) = true) ↔
      ∀ id ∈ raw,
        CandidateSeen e (i.withSubject id) (holds i.context || holds i.contextualTuples) := by
  have hanswer : accessibleSubjects e i = some (filterSet e i (candidateSubjectDenied e i) raw) := by
    simp [accessibleSubjects, hf.not_refused, subjectSearchValid, hsearch.token, hsearch.trusted,
      hraw, filterSubjects]
  rw [set_agrees_iff hf hanswer]
  simp only [graphSubjects, Option.bind_eq_bind, Option.bind_eq_some_iff] at hraw
  obtain ⟨s, hs, st, hst, action, haction, resource, hres, rt, hrt, rid, hrid, hlist⟩ := hraw
  exact forall₂_congr fun id hid =>
    subject_iff hsearch hs hst haction hres hrt hrid (hl.subjects hlist id hid)

theorem subjectsPage_iff (hl : ListsAgree e) (hsearch : SubjectSearch e i) {page : Page}
    {raw : List String} (hpage : i.page = some page) (hraw : graphSubjectsPage e i page = some raw)
    (hf : Filtered e i raw.length) :
    (∃ ids more cursor, accessibleSubjectsPage e i = some (.page ids more cursor) ∧
        ∀ id, id ∈ ids ↔ id ∈ consumed page raw ∧ allow e (i.withSubject id) = true) ↔
      ∀ id ∈ consumed page raw,
        CandidateSeen e (i.withSubject id) (holds i.context || holds i.contextualTuples) := by
  have hanswer : accessibleSubjectsPage e i =
      some (filterPage e i (candidateSubjectDenied e i) page raw) := by
    simp [accessibleSubjectsPage, hf.not_refused, subjectSearchValid, hsearch.token, hsearch.trusted,
      hpage, hraw, filterSubjectsPage]
  rw [page_agrees_iff hf hanswer]
  simp only [graphSubjectsPage, Option.bind_eq_bind, Option.bind_eq_some_iff] at hraw
  obtain ⟨s, hs, st, hst, action, haction, resource, hres, rt, hrt, rid, hrid, w, -, hlist⟩ := hraw
  exact forall₂_congr fun id hid =>
    subject_iff hsearch hs hst haction hres hrt hrid
      (hl.subjectsPage hlist id (List.mem_of_mem_take hid))

/-- Without a loaded hook nothing is emitted. -/
theorem emitted_of_not_loaded (hloaded : hooksLoaded e i = some []) {hi : HookInput}
    (hs : store e i = some hi.store) : emitted e hi = [] := by
  simp only [hooksLoaded, hs, Option.map_some, Option.some.injEq] at hloaded
  have hlen := congrArg List.length hloaded
  simp only [List.length_mergeSort, List.length_append, List.length_map, List.length_nil,
    Nat.add_eq_zero_iff, List.length_eq_zero_iff] at hlen
  simp [emitted, applicable, hlen.1, hlen.2]

theorem store_of_hookInput {hi : HookInput} (hhi : hookInput e i = some hi) :
    store e i = some hi.store := by
  simp only [hookInput, Option.bind_eq_bind, Option.bind_eq_some_iff] at hhi
  obtain ⟨s, hs, _, _, _, _, heq⟩ := hhi
  rw [hs, ← Option.some.inj heq]

/-- With and without hooks the action search is the filtered list. -/
theorem permittedActions_eq {listed : Finset String} {hi : HookInput}
    (hlisted : graphPermittedActions e i = some listed) (hhi : hookInput e i = some hi) :
    permittedActions e i = some (listed.filter fun a => actionHookDenied e i a = false) := by
  have hs := store_of_hookInput hhi
  obtain ⟨names, hloaded⟩ : ∃ names, hooksLoaded e i = some names := ⟨_, by rw [hooksLoaded, hs]; rfl⟩
  cases names with
  | nil =>
    simp only [permittedActions, hloaded, hlisted, Option.some.injEq]
    symm
    refine Finset.filter_true_of_mem fun a _ => ?_
    rw [actionHookDenied, candidateDenied_eq hhi, deniedAt_eq_false_iff]
    exact emitted_of_not_loaded hloaded hs
  | cons name names => simp only [permittedActions, hloaded, hlisted, Option.getD_some]

theorem actions_iff (hl : ListsAgree e) :
    (∀ permitted, permittedActions e i = some permitted → ∀ a, a ∈ permitted ↔
        (∃ listed, graphPermittedActions e i = some listed ∧ a ∈ listed) ∧
          allow e (i.withAction a) = true) ↔
      ∀ listed, graphPermittedActions e i = some listed → ∀ a ∈ listed,
        CandidateSeen e (i.withAction a) (holds i.contextualTuples) := by
  cases hlisted : graphPermittedActions e i with
  | none =>
    -- nothing is listed, so that the comprehension is empty
    simp only [reduceCtorEq, false_and, exists_const, iff_false, false_implies, implies_true, iff_true]
    intro permitted hpermitted a ha
    simp only [permittedActions, hlisted, Option.getD_none, Finset.filter_empty] at hpermitted
    split at hpermitted
    · exact absurd hpermitted (by simp)
    · exact absurd hpermitted (by simp)
    · rw [← Option.some.inj hpermitted] at ha
      exact absurd ha (Finset.notMem_empty a)
  | some listed =>
    have hraw := hlisted
    simp only [graphPermittedActions, Option.bind_eq_bind, Option.bind_eq_some_iff] at hraw
    obtain ⟨s, hs, st, hst, sid, hsid, resource, hres, rt, hrt, rid, hrid, hlist⟩ := hraw
    have hv : subjectValid e i = true := by
      by_contra hv
      simp [hv] at hlist
    rw [if_pos hv] at hlist
    obtain ⟨hi, hhi⟩ := exists_hookInput hs hv hst hsid
    simp only [permittedActions_eq hlisted hhi, Option.some.injEq, forall_eq', exists_eq_left',
      Finset.mem_filter]
    rw [mem_filter_iff_forall]
    refine forall₂_congr fun a ha => ?_
    rw [actionHookDenied, candidateDenied_eq hhi]
    refine candidate_iff ?_ fun htuples => ?_
    · rw [hookInput_withAction, hhi]
      rfl
    · exact graphAllow_withAction hv htuples hs hst hsid hres hrt hrid (hl.actions hlist a ha)

/-- A deployment for trusted callers with one global hook, where alice reads the document `budget`. -/
def aliceEnv (deny : HookInput → List Json) : Env where
  config := {
    defaultStore := none
    requireTokenForReads := false
    allowUnknownEnvironment := false
    hookFilteredEnumeration := true
    allowUnfilteredEnumeration := false
    hookFilterMaxCandidates := some 1000 }
  now := .num 0
  authn _ := none
  globalHooks := [⟨"freeze", deny⟩]
  storeHooks _ := []
  decide _ check _ := some (check == ⟨"user", "alice", "can_read", "document", "budget"⟩)
  decideWithTuples _ _ _ _ := none
  listObjects
    | _, .str "user", .str "alice", .str "can_read", .str "document", none => some {"budget"}
    | _, _, _, _, _, _ => none
  listObjectsPage _ _ _ _ _ _ _ := none
  listSubjects _ _ _ _ _ := none
  listSubjectsPage _ _ _ _ _ _ := none
  listActions _ _ _ _ _ _ := none

theorem listsAgree_aliceEnv (deny : HookInput → List Json) : ListsAgree (aliceEnv deny) where
  objects := by
    intro s st sid action rt ctx raw hraw id hid
    simp only [aliceEnv] at hraw
    split at hraw
    · rw [← Option.some.inj hraw, Finset.mem_singleton] at hid
      subst hid
      rfl
    · exact absurd hraw (by simp)
  objectsPage := by
    intro s st sid action rt ctx w raw hraw
    exact absurd hraw (by simp [aliceEnv])
  subjects := by
    intro s st action rt rid raw hraw
    exact absurd hraw (by simp [aliceEnv])
  subjectsPage := by
    intro s st action rt rid w raw hraw
    exact absurd hraw (by simp [aliceEnv])
  actions := by
    intro s st sid rt rid ctx raw hraw
    exact absurd hraw (by simp [aliceEnv])

/-- Alice asks for the document. -/
def aliceReads : Input where
  store := some "main"
  subject := some (.obj [("type", .str "user"), ("id", .str "alice")])
  action := some (.str "can_read")
  resource := some (.obj [("type", .str "document"), ("id", .str "budget")])
  deployment := some (.obj [("environment", .str "production")])

end PgAuthz.Opa
