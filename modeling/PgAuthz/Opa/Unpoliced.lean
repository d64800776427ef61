import PgAuthz.Opa.Direct
import PgAuthz.Opa.EngineFailures

/-!
# Policies without hooks

With no hook mounted the policies add nothing to the answers of the engine. An instance behind such
policies answers like the direct backend, except where a call loses something on its way: a search for
subjects its context, a search without a page the token for the rest, a page with the largest limit the
row behind it. A batch of no entries is refused on the way.

## Main definitions

* `Unhooked`: no hook is mounted
* `Reply.Matches`, `Deployment.Agrees`: the policies answer what the direct backend answers
* `Call.Answerable`, `Deployment.Carries`, `Engine.Settled`: the calls and the states

## Main results

* `run_check`, `run_batch`, `run_resources_page` and so on: the calls in terms of the answers of the
  engine
* `agrees_iff`: the two backends agree on a call exactly if nothing of it is lost on the way
-/

namespace PgAuthz.Opa

open Daemon

/-! ## The policies without hooks -/

/-- No hook is mounted. -/
structure Unhooked (e : Env) : Prop where
  global : e.globalHooks = []
  ofStore : ∀ s, e.storeHooks s = []

section Unhooked

variable {e : Env} {i : Input} (h : Unhooked e)
include h

theorem hooksLoaded_of_unhooked : hooksLoaded e i = (store e i).map fun _ => [] := by
  simp [hooksLoaded, h.global, h.ofStore]

theorem hooked_of_unhooked : hooked e i = false := by
  rw [hooked, hooksLoaded_of_unhooked h]
  cases store e i with
  | none => rfl
  | some s => rfl

theorem guarded_of_unhooked : guarded e i = false := by
  simp [guarded, hooked_of_unhooked h]

theorem hookDenials_of_unhooked : hookDenials e i = [] := by
  rw [hookDenials_eq_nil_iff, allDecisionDenials, List.append_eq_nil_iff,
    envGuardDenials_eq_nil_iff]
  refine ⟨guarded_of_unhooked h, ?_⟩
  cases hookInput e i with
  | none => rfl
  | some hi => simp [applicable, h.global, h.ofStore]

theorem hooksPass_of_unhooked : hooksPass e i = true := by
  rw [hooksPass, hookDenials_of_unhooked h]
  rfl

theorem allBatchHookDenials_of_unhooked : allBatchHookDenials e i = [] := by
  have hitem : ∀ item, itemDenials e i item = [] := by
    intro item
    unfold itemDenials
    split
    · exact hookDenials_of_unhooked h
    · rfl
  unfold allBatchHookDenials
  split
  · simp [hitem]
  · rfl

theorem enumerationRefused_of_unhooked : enumerationRefused e i = false := by
  simp [enumerationRefused, hooked_of_unhooked h]

theorem activeCap_of_unhooked : activeCap e i = none := by
  simp [activeCap, enumerationFiltering, hooked_of_unhooked h]

/-- Without hooks a set of candidates is listed as it is. -/
theorem filterSet_of_unhooked (denied : String → Bool) (raw : Finset String) :
    filterSet e i denied raw = .ids (raw.sort (· ≤ ·)) := by
  rw [filterSet, activeCap_of_unhooked h]

/-- Without hooks a page of candidates is listed as it is. -/
theorem filterPage_of_unhooked (denied : String → Bool) (page : Page) (raw : List String) :
    filterPage e i denied page raw = .ids raw := by
  rw [filterPage, activeCap_of_unhooked h]

/-- Without hooks a search gives what is found, and a list without a set to filter is empty. -/
theorem search_of_unhooked (b : Backend) (denied : String → Bool) (found : Option (Finset String))
    (paged : Option Answer) : b.search none (found.map (filterSet e i denied)) paged =
      .ok (.ids ((found.map (·.sort (· ≤ ·))).getD []) none) := by
  cases found with
  | none => rfl
  | some raw =>
    rw [Option.map_some, filterSet_of_unhooked h]
    rfl

theorem search_page_of_unhooked (b : Backend) (denied : String → Bool) (page : Page) (p : PageRequest)
    (found : Option (List String)) (set : Option Answer) :
    b.search (some p) set (found.map (filterPage e i denied page)) =
      .ok (buildPage (found.getD []) p.limit) := by
  cases found with
  | none => rfl
  | some raw =>
    rw [Option.map_some, filterPage_of_unhooked h]
    rfl

end Unhooked

/-! ## The calls -/

section Calls

variable {e : DetailEnv} {b : Backend} {ctx : CallContext} {s : String}

theorem store_send {i : Input} (hs : s ≠ "") (hi : i.store = unlessEmpty s) :
    store e.toEnv (b.send ctx i) = some s := by
  have hstore : (b.send ctx i).store = some s := by
    show i.store = some s
    rw [hi, unlessEmpty, if_neg hs]
  rw [store, hstore]
  rfl

theorem token_send {i : Input} (hb : b.forwardToken = false) : (b.send ctx i).token = none := by
  simp [Backend.send, hb]

theorem subjectValid_send {i : Input} (hb : b.forwardToken = false)
    (htrusted : e.config.requireTokenForReads = false) (hsub : holds i.subject = true) :
    subjectValid e.toEnv (b.send ctx i) = true := by
  have hsub' : holds (b.send ctx i).subject = true := hsub
  simp [subjectValid, token_send hb, htrusted, hsub']

theorem subjectType_send {i : Input} {t x : Json} (hb : b.forwardToken = false)
    (hsub : i.subject = some (.obj [("type", t), ("id", x)])) :
    subjectType e.toEnv (b.send ctx i) = some t ∧ subjectId e.toEnv (b.send ctx i) = some x := by
  have hsub' : (b.send ctx i).subject = some (.obj [("type", t), ("id", x)]) := hsub
  simp [subjectType, subjectId, token_send hb, hsub']

theorem nativeCheck_parts (req : EvalRequest) :
    nativeCheck (.str req.subjectType) (.str req.subjectID) (.str req.action) (.str req.objectType)
      (.str req.objectID) = some req.check := by
  simp [nativeCheck, nativeString, EvalRequest.check, req.subjectType.2, req.subjectID.2,
    req.action.2, req.objectType.2, req.objectID.2]

theorem nativeContext_given (context : Option Fields) :
    nativeContext (given (context.map .obj)) = some context := by
  cases context with
  | none => rfl
  | some fields => rfl

section Answers

variable (h : Unhooked e.toEnv) (hb : b.forwardToken = false)
  (htrusted : e.config.requireTokenForReads = false) (hs : s ≠ "")
include h hb htrusted hs

/-- **A check behind policies without hooks.** -/
theorem run_check (req : EvalRequest) :
    b.run ctx e (.check s req) =
      .ok (.decision (e.decide s req.check req.context == some true)) := by
  have hvalid := @subjectValid_send e b ctx (Call.check s req).input hb htrusted rfl
  obtain ⟨htype, hid⟩ := @subjectType_send e b ctx (Call.check s req).input _ _ hb rfl
  have hstore := @store_send e b ctx s (Call.check s req).input hs rfl
  have hgraph : graphCheck e.toEnv (b.send ctx (Call.check s req).input) =
      e.decide s req.check req.context := by
    unfold graphCheck
    rw [hstore, htype, hid]
    show checkAccess e.toEnv s (.str req.subjectType) (.str req.subjectID) (.str req.action)
      (.str req.objectType) (.str req.objectID) (given (req.context.map .obj)) none = _
    simp only [checkAccess, nativeCheck_parts, nativeContext_given]
    rfl
  have hallow : allow e.toEnv (b.send ctx (Call.check s req).input) =
      (e.decide s req.check req.context == some true) := by
    rw [allow, graphAllow, hvalid, hgraph, hooksPass_of_unhooked h, Bool.true_and, Bool.and_true]
  exact congrArg (fun d => Except.ok (Reply.decision d)) hallow

/-- **A detailed check behind policies without hooks.** -/
theorem run_detailed (req : EvalRequest) :
    b.run ctx e (.detailed s req) =
      .ok (reportOf ((e.decideDetailed s req.check req.context).map fun r =>
        mergeFields [("decision", .bool r.1)] r.2)) := by
  have hvalid := @subjectValid_send e b ctx (Call.detailed s req).input hb htrusted rfl
  obtain ⟨htype, hid⟩ := @subjectType_send e b ctx (Call.detailed s req).input _ _ hb rfl
  have hstore := @store_send e b ctx s (Call.detailed s req).input hs rfl
  have hgraph : graphDetailed e (b.send ctx (Call.detailed s req).input) =
      (e.decideDetailed s req.check req.context).map fun r =>
        mergeFields [("decision", .bool r.1)] r.2 := by
    unfold graphDetailed
    rw [hstore, htype, hid]
    have hcontext : nativeContext (some ((req.context.map Json.obj).getD .null)) =
        some req.context := by
      cases req.context with
      | none => rfl
      | some fields => rfl
    show checkAccessDetailed e s (.str req.subjectType) (.str req.subjectID) (.str req.action)
      (.str req.objectType) (.str req.objectID) ((req.context.map Json.obj).getD .null) = _
    simp only [checkAccessDetailed, nativeCheck_parts, hcontext, Option.bind_eq_bind,
      Option.bind_some]
    cases e.decideDetailed s req.check req.context with
    | none => rfl
    | some r => rfl
  have hdetailed : allowDetailed e (b.send ctx (Call.detailed s req).input) =
      (e.decideDetailed s req.check req.context).map fun r =>
        mergeFields [("decision", .bool r.1)] r.2 := by
    rw [allowDetailed, if_pos hvalid, hooksLoaded_of_unhooked h, hstore, hgraph]
    simp [hooksPass_of_unhooked h, Option.map_map, Function.comp_def]
  simp only [Backend.run, hdetailed]
  cases e.decideDetailed s req.check req.context with
  | none => rfl
  | some r => rfl

/-- **An object search behind policies without hooks**, with and without a page. -/
theorem run_resources (q : ResourceQuery) (context : Option Fields) (page : Option PageRequest) :
    b.run ctx e (.resources s q context page) =
      match page with
      | none => .ok (.ids (((e.listObjects s (.str q.subjectType) (.str q.subjectID) (.str q.action)
          (.str q.objectType) (given (context.map .obj))).map (·.sort (· ≤ ·))).getD []) none)
      | some p => .ok (buildPage (((window (pageInput p)).bind
          (e.listObjectsPage s (.str q.subjectType) (.str q.subjectID) (.str q.action)
            (.str q.objectType) (given (context.map .obj)))).getD []) p.limit) := by
  have hvalid := @subjectValid_send e b ctx (Call.resources s q context page).input hb htrusted rfl
  obtain ⟨htype, hid⟩ :=
    @subjectType_send e b ctx (Call.resources s q context page).input _ _ hb rfl
  have hstore := @store_send e b ctx s (Call.resources s q context page).input hs rfl
  have hopen := @enumerationRefused_of_unhooked e.toEnv
    (b.send ctx (Call.resources s q context page).input) h
  cases page with
  | none =>
    have hgraph : graphObjects e.toEnv (b.send ctx (Call.resources s q context none).input) =
        e.listObjects s (.str q.subjectType) (.str q.subjectID) (.str q.action) (.str q.objectType)
          (given (context.map .obj)) := by
      unfold graphObjects
      rw [hstore, htype, hid]
      rfl
    simp only [Backend.run, accessibleObjects, hopen, hvalid, hgraph]
    exact search_of_unhooked h b _ _ _
  | some p =>
    have hgraph : graphObjectsPage e.toEnv (b.send ctx (Call.resources s q context (some p)).input)
        (pageInput p) = (window (pageInput p)).bind (e.listObjectsPage s (.str q.subjectType)
          (.str q.subjectID) (.str q.action) (.str q.objectType) (given (context.map .obj))) := by
      unfold graphObjectsPage
      rw [hstore, htype, hid]
      rfl
    have hpage : (b.send ctx (Call.resources s q context (some p)).input).page =
        some (pageInput p) := rfl
    simp only [Backend.run, accessibleObjectsPage, hopen, hvalid, hpage, hgraph, Option.bind_some]
    exact search_page_of_unhooked h b _ _ p _ _

/-- **A subject search behind policies without hooks.** Its context is not used. -/
theorem run_subjects (q : SubjectQuery) (context : Option Fields) (page : Option PageRequest) :
    b.run ctx e (.subjects s q context page) =
      match page with
      | none => .ok (.ids (((e.listSubjects s (.str q.subjectType) (.str q.action)
          (.str q.objectType) (.str q.objectID)).map (·.sort (· ≤ ·))).getD []) none)
      | some p => .ok (buildPage (((window (pageInput p)).bind
          (e.listSubjectsPage s (.str q.subjectType) (.str q.action) (.str q.objectType)
            (.str q.objectID))).getD []) p.limit) := by
  have hvalid : subjectSearchValid e.toEnv (b.send ctx (Call.subjects s q context page).input) =
      true := by
    simp [subjectSearchValid, token_send hb, htrusted]
  have hstore := @store_send e b ctx s (Call.subjects s q context page).input hs rfl
  have hopen := @enumerationRefused_of_unhooked e.toEnv
    (b.send ctx (Call.subjects s q context page).input) h
  cases page with
  | none =>
    have hgraph : graphSubjects e.toEnv (b.send ctx (Call.subjects s q context none).input) =
        e.listSubjects s (.str q.subjectType) (.str q.action) (.str q.objectType)
          (.str q.objectID) := by
      unfold graphSubjects
      rw [hstore]
      rfl
    simp only [Backend.run, accessibleSubjects, hopen, hvalid, hgraph]
    exact search_of_unhooked h b _ _ _
  | some p =>
    have hgraph : graphSubjectsPage e.toEnv (b.send ctx (Call.subjects s q context (some p)).input)
        (pageInput p) = (window (pageInput p)).bind (e.listSubjectsPage s (.str q.subjectType)
          (.str q.action) (.str q.objectType) (.str q.objectID)) := by
      unfold graphSubjectsPage
      rw [hstore]
      rfl
    have hpage : (b.send ctx (Call.subjects s q context (some p)).input).page =
        some (pageInput p) := rfl
    simp only [Backend.run, accessibleSubjectsPage, hopen, hvalid, hpage, hgraph, Option.bind_some]
    exact search_page_of_unhooked h b _ _ p _ _

/-- **An action search behind policies without hooks.** -/
theorem run_actions (q : ActionQuery) (context : Option Fields) :
    b.run ctx e (.actions s q context) =
      .ok (.names (((e.listActions s (.str q.subjectType) (.str q.subjectID) (.str q.objectType)
        (.str q.objectID) (given (context.map .obj))).map (·.sort (· ≤ ·))).getD [])) := by
  have hvalid := @subjectValid_send e b ctx (Call.actions s q context).input hb htrusted rfl
  obtain ⟨htype, hid⟩ := @subjectType_send e b ctx (Call.actions s q context).input _ _ hb rfl
  have hstore := @store_send e b ctx s (Call.actions s q context).input hs rfl
  have hgraph : graphPermittedActions e.toEnv (b.send ctx (Call.actions s q context).input) =
      e.listActions s (.str q.subjectType) (.str q.subjectID) (.str q.objectType) (.str q.objectID)
        (given (context.map .obj)) := by
    unfold graphPermittedActions
    rw [hstore, htype, hid, hvalid]
    rfl
  have hloaded : hooksLoaded e.toEnv (b.send ctx (Call.actions s q context).input) = some [] := by
    rw [hooksLoaded_of_unhooked h, hstore]
    rfl
  simp only [Backend.run, permittedActions, hloaded, hgraph]
  rfl

/-- The shared context that a batch comes with. -/
def sentContext (globalContext : Option Fields) (semantic : String) : Option Fields :=
  if semantic ≠ "" ∧ semantic ≠ "execute_all" then some (globalContext.getD []) else globalContext

omit h hb htrusted hs in
/-- The shared context arrives with the semantic, and the semantic as it is. -/
theorem sent_batch (reqs : List EvalRequest) (globalContext : Option Fields) (semantic : String) :
    nativeContext (sharedContext (b.send ctx (Call.batch s reqs globalContext semantic).input)) =
        some (sentContext globalContext semantic) ∧
      readSemantic (sentSemantic (b.send ctx (Call.batch s reqs globalContext semantic).input)) =
        readSemantic semantic := by
  set i := b.send ctx (Call.batch s reqs globalContext semantic).input with hi
  have hsemantic : i.semantic =
      if semantic ≠ "" ∧ semantic ≠ "execute_all" then some semantic else none := rfl
  have hcontext : i.context = batchContext globalContext semantic := rfl
  rw [sharedContext, sentSemantic, hsemantic, hcontext, batchContext, sentContext]
  by_cases hsem : semantic ≠ "" ∧ semantic ≠ "execute_all"
  · simp only [if_pos hsem]
    exact ⟨rfl, rfl⟩
  · simp only [if_neg hsem]
    refine ⟨nativeContext_given globalContext, ?_⟩
    -- the default semantic is sent for both of its names
    have hdefault : semantic = "" ∨ semantic = "execute_all" := by
      by_contra hne
      exact hsem (not_or.mp hne)
    simp [readSemantic, hdefault]

omit h hb htrusted hs in
/-- An entry arrives at the engine as it is. -/
theorem batchCheck_evalItem (i : Input) (req : EvalRequest) :
    ∃ c, batchCheck i (evalItem req) = some c ∧ readBatchCheck c = some (req.check, req.context) := by
  refine ⟨⟨.str req.subjectType, .str req.subjectID, .str req.action, .str req.objectType,
    .str req.objectID, given (req.context.map .obj)⟩, rfl, ?_⟩
  simp only [readBatchCheck, nativeCheck_parts, nativeContext_given]
  rfl

omit h hb htrusted hs in
theorem mapM_batchCheck (i : Input) (reqs : List EvalRequest) :
    ∃ cs, (reqs.map evalItem).mapM (batchCheck i) = some cs ∧
      cs.mapM readBatchCheck = some (reqs.map fun req => (req.check, req.context)) := by
  induction reqs with
  | nil => exact ⟨[], rfl, rfl⟩
  | cons req reqs ih =>
    obtain ⟨c, hc, hread⟩ := batchCheck_evalItem i req
    obtain ⟨cs, hcs, hreads⟩ := ih
    exact ⟨c :: cs, by simp [hc, hcs], by simp [hread, hreads]⟩

/-- **A batch behind policies without hooks.** A batch of no entries has no answer. -/
theorem run_batch (reqs : List EvalRequest) (globalContext : Option Fields) (semantic : String) :
    b.run ctx e (.batch s reqs globalContext semantic) =
      decodeBatch (if reqs = [] then none else (readSemantic semantic).bind fun stop =>
        (runChecks (fun req => e.decide s req.check
          (mergeContext (sentContext globalContext semantic) req.context)) stop reqs).map fun results =>
            .results (results.map (·.getD false))) := by
  have hrun : b.run ctx e (.batch s reqs globalContext semantic) = decodeBatch
      (evaluations e.toEnv (b.send ctx (Call.batch s reqs globalContext semantic).input)) := by
    simp only [Backend.run, query]
    cases evaluations e.toEnv (b.send ctx (Call.batch s reqs globalContext semantic).input) with
    | none => rfl
    | some answer => rfl
  obtain ⟨hcontext, hsemantic⟩ := @sent_batch b ctx s reqs globalContext semantic
  obtain ⟨cs, hcs, hreads⟩ :=
    mapM_batchCheck (b.send ctx (Call.batch s reqs globalContext semantic).input) reqs
  have hstore := @store_send e b ctx s (Call.batch s reqs globalContext semantic).input hs rfl
  have htoken := @token_send b ctx (Call.batch s reqs globalContext semantic).input hb
  have hsub : (b.send ctx (Call.batch s reqs globalContext semantic).input).subject = none := rfl
  have hevals : (b.send ctx (Call.batch s reqs globalContext semantic).input).evaluations =
      some (reqs.map evalItem) := rfl
  rw [hrun]
  generalize b.send ctx (Call.batch s reqs globalContext semantic).input = i at *
  have hvalid : batchSubjectValid e.toEnv i = true := by
    simp [batchSubjectValid, htoken, hsub, hevals, htrusted, evalItem, entity]
  have hchecks : ∀ stop, runChecks (fun c : Check × Option Fields => e.decide s c.1
      (mergeContext (sentContext globalContext semantic) c.2)) stop
        (reqs.map fun req => (req.check, req.context)) =
      runChecks (fun req => e.decide s req.check
        (mergeContext (sentContext globalContext semantic) req.context)) stop reqs := by
    intro stop
    refine runChecks_congr ?_
    rw [List.forall₂_map_left_iff]
    exact List.forall₂_same.mpr fun req _ => rfl
  -- the engine answers the checks of the request, in its order
  have hgraph : graphEvaluations e.toEnv i =
      if reqs = [] then none else (readSemantic semantic).bind fun stop =>
        (runChecks (fun req => e.decide s req.check
          (mergeContext (sentContext globalContext semantic) req.context)) stop reqs).map
            (·.map (·.getD false)) := by
    simp only [graphEvaluations, hstore, hevals, hcs, checkAccessBatch, hreads, hcontext, hsemantic,
      Option.bind_eq_bind, Option.bind_some, hchecks, List.isEmpty_iff, List.map_eq_nil_iff]
    by_cases hnil : reqs = []
    · simp [hnil]
    · simp only [if_neg hnil]
      cases readSemantic semantic with
      | none => rfl
      | some stop => exact Option.map_eq_bind.symm
  have hdenials := @allBatchHookDenials_of_unhooked e.toEnv i h
  simp only [evaluations, hvalid, hevals, hdenials, hgraph]
  by_cases hnil : reqs = []
  · simp [hnil]
  · cases readSemantic semantic with
    | none => simp [hnil]
    | some stop => simp [hnil, Function.comp_def]

end Answers

end Calls

/-! ## Agreement -/

/-- Two answers are the same, up to the order of ids and the form of page tokens. -/
def Reply.Matches : Reply → Reply → Prop
  | .decision a, .decision b => a = b
  | .report a d, .report b d' => a = b ∧ d = d'
  | .decisions as, .decisions bs => as = bs
  | .ids as next, .ids bs next' => as.toFinset = bs.toFinset ∧ next.isSome = next'.isSome
  | .names as, .names bs => as.toFinset = bs.toFinset
  | _, _ => False

/-- What the direct backend answers, the backend behind the policies answers too. -/
def Deployment.Agrees (d : Deployment) (en : Engine) (ctx : CallContext) (call : Call) : Prop :=
  ∀ r, en.direct call = .ok r → ∃ r', d.backend.run ctx (d.env en) call = .ok r' ∧ r.Matches r'

/-- The store of a call. -/
def Call.store : Call → String
  | .check s _ | .detailed s _ | .batch s _ _ _ => s
  | .resources s _ _ _ | .subjects s _ _ _ | .actions s _ _ => s

/-- A page that the database reads: its limit with the extra row and its offset are an `int`, and the
offset is not negative where it counts. -/
def PageRequest.Readable (p : PageRequest) : Prop :=
  p.limit < maxInt ∧ -maxInt - 1 ≤ p.offset ∧ p.offset ≤ maxInt ∧ (p.after = "" → 0 ≤ p.offset)

/-- The direct backend can answer the call: the store can be one, the semantic of a batch is known, and
the page of a search is read. -/
def Call.Answerable (call : Call) : Prop :=
  plainName call.store = true ∧
    match call with
    | .batch _ _ _ semantic => semantic ≠ "" ∧ (readSemantic semantic).isSome = true
    | .resources _ _ _ page | .subjects _ _ _ page => ∀ p, page = some p → p.Readable
    | _ => True

/-- Nothing of a search is lost on the way, its context apart: the listener demands no role, and the
limit leaves room for two rows more. -/
def Deployment.CarriesSearch (d : Deployment) (page : Option PageRequest) : Prop :=
  d.searchRequiredRole = "" ∧ ∀ p, page = some p → p.limit ≠ maxInt - 1

/-- **Nothing of the call is lost on the way.** The policies trust a caller without a token, a batch has
an entry, and a search for subjects has no context. -/
def Deployment.Carries (d : Deployment) (call : Call) : Prop :=
  d.policies.config.requireTokenForReads = false ∧
    match call with
    | .batch _ reqs _ _ => reqs ≠ []
    | .resources _ _ _ page => d.CarriesSearch page
    | .subjects _ _ context page => d.CarriesSearch page ∧ context.getD [] = []
    | _ => True

/-- Where the list of a page starts. -/
def PageRequest.start (p : PageRequest) : Start :=
  match unlessEmpty p.after with
  | some id => .after id
  | none => .offset p.offset.toNat

/-- Without a page, the list fits into a default page. With one, the row behind the page and its extra
row does not fail. -/
def Surveyed (rows : Start → Scan) : Option PageRequest → Prop
  | none => (rows (.offset 0)).rows.length ≤ 100
  | some p => (rows p.start).rows.length = p.limit.toNat + 1 → (rows p.start).fault = none

/-- The list that a search asks for is surveyed, in a store of the engine. -/
def Engine.Settled (en : Engine) (call : Call) : Prop :=
  call.store ∈ en.stores.names →
    match call with
    | .resources s q context page => Surveyed (en.listObjects s q.subjectType q.subjectID q.action
        q.objectType (context.getD [])) page
    | .subjects s q context page => Surveyed (en.listSubjects s q.subjectType q.action q.objectType
        q.objectID (context.getD [])) page
    | _ => True

/-! ## Pages -/

section Pages

variable {en : Engine} {s : String} {rows : Start → Scan} {p : PageRequest}

/-- The rows that a readable page asks for. -/
theorem listRows_eq_limited (hp : p.Readable) {limit : ℤ} (h0 : 0 ≤ limit) (hmax : limit ≤ maxInt) :
    listRows rows limit p.offset p.after = (rows p.start).limited limit.toNat := by
  obtain ⟨-, hlow, hhigh, hoffset⟩ := hp
  have hint : ¬ (limit < 0 ∨ maxInt < limit ∨ p.offset < -maxInt - 1 ∨ maxInt < p.offset) := by
    omega
  rw [listRows, if_neg hint, PageRequest.start, unlessEmpty]
  by_cases hafter : p.after = ""
  · have hpos : ¬ p.offset < 0 := not_lt.mpr (hoffset hafter)
    simp [hafter, hpos]
  · simp [hafter]

/-- The page that the policies ask the callback for. -/
theorem exists_window (p : PageRequest) :
    ∃ w p', window (pageInput p) = some w ∧ pageReq w = some p' ∧ p'.limit = p.limit + 1 ∧
      p'.start = p.start ∧ (p.Readable → p.limit ≠ maxInt - 1 → p'.Readable) := by
  have hpos : 0 < p.limit + 1 := by
    have hlimit := p.limit_pos
    omega
  by_cases hafter : p.after = ""
  · refine ⟨.offset (p.limit + 1) p.offset, ⟨p.limit + 1, p.offset, "", hpos⟩, ?_, ?_, rfl, ?_, ?_⟩
    · simp [window, pageInput, unlessEmpty, hafter]
    · simp [pageReq, hpos]
    · simp [PageRequest.start, hafter]
    · rintro ⟨hlimit, hlow, hhigh, hoffset⟩ hne
      refine ⟨?_, hlow, hhigh, fun _ => hoffset hafter⟩
      show p.limit + 1 < maxInt
      omega
  · refine ⟨.after (p.limit + 1) p.after, ⟨p.limit + 1, 0, p.after, hpos⟩, ?_, ?_, rfl, ?_, ?_⟩
    · simp [window, pageInput, unlessEmpty, hafter]
    · simp [pageReq, hpos]
    · simp [PageRequest.start, unlessEmpty, hafter]
    · rintro ⟨hlimit, -, -, -⟩ hne
      refine ⟨?_, ?_, ?_, fun _ => le_rfl⟩
      · show p.limit + 1 < maxInt
        omega
      · show -maxInt - 1 ≤ 0
        decide
      · show 0 ≤ maxInt
        decide

/-- A page of a store, and the default page. -/
theorem listPage_some (hs : s ∈ en.stores.names) (hp : p.Readable) :
    en.listPage s rows (some p) =
      (Engine.noEntity [] ((rows p.start).limited (p.limit.toNat + 1))).map (buildPage · p.limit) := by
  have hpos := p.limit_pos
  have hnat : (p.limit + 1).toNat = p.limit.toNat + 1 := by omega
  have hrows := @listRows_eq_limited rows p hp (p.limit + 1) (by omega) hp.1
  simp only [Engine.listPage, Engine.pageParams, Engine.inStore, if_pos hs, hrows, hnat]
  cases Engine.noEntity [] ((rows p.start).limited (p.limit.toNat + 1)) with
  | error f => rfl
  | ok ids => rfl

theorem listPage_none (hs : s ∈ en.stores.names) :
    en.listPage s rows none =
      (Engine.noEntity [] ((rows (.offset 0)).limited 101)).map (buildPage · 100) := by
  have hrows : listRows rows (100 + 1) 0 "" = (rows (.offset 0)).limited 101 := rfl
  simp only [Engine.listPage, Engine.pageParams, Engine.inStore, if_pos hs, hrows]
  cases Engine.noEntity [] ((rows (.offset 0)).limited 101) with
  | error f => rfl
  | ok ids => rfl

theorem buildPage_of_length_le {ids : List String} {limit : ℤ} (h : (ids.length : ℤ) ≤ limit) :
    buildPage ids limit = .ids ids none := by
  have htake : ids.take limit.toNat = ids := List.take_of_length_le (by omega)
  simp [buildPage, htake, not_lt.mpr h]

/-- With more ids than the page holds there is a next page. -/
theorem exists_cursor {ids : List String} {limit : ℤ} (hpos : 0 < limit)
    (h : limit < ids.length) : ∃ c, buildPage ids limit = .ids (ids.take limit.toNat) (some c) := by
  have hne : ids.take limit.toNat ≠ [] := by
    rw [Ne, List.take_eq_nil_iff]
    rintro (hzero | hnil)
    · omega
    · simp only [hnil, List.length_nil, Nat.cast_zero] at h
      omega
  refine ⟨.plain ((ids.take limit.toNat).getLast hne), ?_⟩
  simp [buildPage, h, List.getLast?_eq_some_getLast hne]

theorem Reply.matches_refl (r : Reply) : r.Matches r := by
  cases r with
  | decision => exact rfl
  | report => exact ⟨rfl, rfl⟩
  | decisions => exact rfl
  | ids => exact ⟨rfl, rfl⟩
  | names => exact rfl

/-- The ids that the callback reports for a page. -/
def reported (en : Engine) (s : String) (rows : Start → Scan) (page : Option PageRequest) :
    List String :=
  (((en.listPage s rows page).toOption).map Reply.listed).getD []

theorem reported_page {p' : PageRequest} (hs : s ∈ en.stores.names) (hp' : p'.Readable)
    (hlimit : p'.limit = p.limit + 1) (hstart : p'.start = p.start) :
    reported en s rows (some p') = match (rows p.start).limited (p.limit.toNat + 2) with
      | .ok l => l.take (p.limit.toNat + 1)
      | .error _ => [] := by
  have hpos := p.limit_pos
  have hnat : p'.limit.toNat = p.limit.toNat + 1 := by omega
  rw [reported, listPage_some hs hp', hnat, hstart]
  cases (rows p.start).limited (p.limit.toNat + 1 + 1) with
  | ok l => simp [Engine.noEntity, Except.map, Except.toOption, Reply.listed, buildPage, hnat]
  | error f =>
    cases f with
    | unknownEntity => simp [Engine.noEntity, Except.map, Except.toOption, Reply.listed, buildPage]
    | other => rfl

/-- **A search with a page** agrees with the direct one exactly if the row behind it does not fail. -/
theorem pagedSearch_agrees_iff {p' : PageRequest} (hs : s ∈ en.stores.names) (hp : p.Readable)
    (hp' : p'.Readable) (hlimit : p'.limit = p.limit + 1) (hstart : p'.start = p.start) :
    (∀ r, en.listPage s rows (some p) = .ok r →
      r.Matches (buildPage (reported en s rows (some p')) p.limit)) ↔ Surveyed rows (some p) := by
  rw [listPage_some hs hp, reported_page hs hp' hlimit hstart, Surveyed]
  generalize hn : p.limit.toNat = n
  have hcast : (p.limit : ℤ) = n := by
    have hpos := p.limit_pos
    omega
  generalize rows p.start = sc
  cases hl : sc.limited (n + 1) with
  | ok l =>
    have hdirect : ∀ r, (Engine.noEntity [] (Except.ok l)).map (buildPage · p.limit) = .ok r ↔
        buildPage l p.limit = r := by
      intro r
      show (Except.ok (buildPage l p.limit) : Except Fault Reply) = .ok r ↔ _
      rw [Except.ok.injEq]
    simp only [hdirect, forall_eq']
    rcases Scan.limited_succ hl with ⟨l', hl', htake⟩ | ⟨hlen, hrows, f, hf⟩
    · rw [hl']
      show (buildPage l p.limit).Matches (buildPage (l'.take (n + 1)) p.limit) ↔ _
      rw [htake]
      refine iff_of_true (Reply.matches_refl _) fun hlen => ?_
      -- the row behind was read, so that there is no failure in its place
      unfold Scan.limited at hl'
      rw [if_neg (by omega)] at hl'
      cases hf : sc.fault with
      | none => rfl
      | some f => simp [hf] at hl'
    · have herr : sc.limited (n + 2) = .error f := by
        rw [Scan.limited, if_neg (by omega), hf]
      rw [herr]
      refine iff_of_false ?_ fun h => by simp [hf] at h; exact h hlen
      obtain ⟨c, hc⟩ := @exists_cursor l p.limit p.limit_pos (by rw [← hrows, hlen]; omega)
      rw [hc, buildPage_nil p.limit_pos]
      rintro ⟨-, h⟩
      cases h
  | error f =>
    have hshort : sc.rows.length ≠ n + 1 := by
      intro hlen
      rw [Scan.limited, if_pos hlen.ge] at hl
      cases hl
    rw [Scan.limited_succ_of_error hl]
    refine iff_of_true ?_ fun hlen => absurd hlen hshort
    cases f with
    | unknownEntity =>
      rintro r hr
      obtain rfl := Except.ok.inj hr
      exact Reply.matches_refl _
    | other =>
      intro r hr
      cases hr

/-- **A search without a page** agrees with the direct one exactly if the list fits into a page. -/
theorem wholeSearch_agrees_iff (hs : s ∈ en.stores.names) :
    (∀ r, en.listPage s rows none = .ok r →
      r.Matches (.ids ((reported en s rows none).toFinset.sort (· ≤ ·)) none)) ↔
    Surveyed rows none := by
  rw [reported, listPage_none hs, Surveyed]
  generalize rows (.offset 0) = sc
  cases hl : sc.limited 101 with
  | ok l =>
    have hlen := Scan.length_le_of_limited hl
    have hrows : sc.rows.length ≤ 100 ↔ l.length ≤ 100 := by
      unfold Scan.limited at hl
      split at hl
      · cases hl
        rw [List.length_take]
        omega
      · cases hf : sc.fault with
        | some f => simp [hf] at hl
        | none =>
          rw [hf] at hl
          rw [Except.ok.inj hl]
    rw [hrows]
    constructor
    · intro h
      by_contra hlong
      obtain ⟨c, hc⟩ := @exists_cursor l 100 (by decide) (by omega)
      obtain ⟨-, hnext⟩ := h _ (congrArg Except.ok hc)
      cases hnext
    · intro hshort r hr
      obtain rfl := Except.ok.inj hr
      have hpage := @buildPage_of_length_le l 100 (by omega)
      have hlisted : (((Engine.noEntity [] (Except.ok l)).map (buildPage · 100)).toOption.map
          Reply.listed).getD [] = l := congrArg Reply.listed hpage
      rw [hlisted]
      show (buildPage l 100).Matches _
      rw [hpage]
      exact ⟨(Finset.sort_toFinset _ _).symm, rfl⟩
  | error f =>
    have hshort : sc.rows.length ≤ 100 := by
      by_contra hlong
      rw [Scan.limited, if_pos (by omega)] at hl
      cases hl
    refine iff_of_true ?_ hshort
    cases f with
    | unknownEntity =>
      intro r hr
      obtain rfl := Except.ok.inj hr
      exact ⟨(Finset.sort_toFinset _ _).symm, rfl⟩
    | other =>
      intro r hr
      cases hr

end Pages

/-! ## What is carried -/

section Carried

variable {d : Deployment} {en : Engine} {ctx : CallContext} {s : String}

theorem Deployment.unhooked (d : Deployment) (en : Engine) : Unhooked (d.env en).toEnv :=
  ⟨d.no_global_hooks, d.no_store_hooks⟩

theorem ne_empty_of_plainName (h : plainName s = true) : s ≠ "" := by
  rintro rfl
  cases h

theorem agrees_of_run {call : Call} {r' : Reply}
    (hrun : d.backend.run ctx (d.env en) call = .ok r') :
    d.Agrees en ctx call ↔ ∀ r, en.direct call = .ok r → r.Matches r' := by
  refine forall_congr' fun r => imp_congr_right fun _ => ?_
  rw [hrun]
  simp

/-- What the callback reports of an object search. -/
theorem nativeListObjects_eq (hrole : d.searchRequiredRole = "") (q : ResourceQuery)
    (context : Option Fields) (page : Option PageRequest) :
    d.nativeListObjects en s (.str q.subjectType) (.str q.subjectID) (.str q.action)
      (.str q.objectType) (given (context.map .obj)) page =
    ((en.listPage s (en.listObjects s q.subjectType q.subjectID q.action q.objectType
      (context.getD [])) page).toOption).map Reply.listed := by
  simp only [Deployment.nativeListObjects, nativeString, nativeContext_given, hrole, ne_eq,
    not_true_eq_false, q.subjectType.2, q.subjectID.2, q.action.2, q.objectType.2, or_false,
    if_false, Option.bind_eq_bind, Option.bind_some, Engine.listResources]
  exact Option.map_eq_bind.symm

/-- What the callback reports of a subject search. It is asked without a context. -/
theorem nativeListSubjects_eq (hrole : d.searchRequiredRole = "") (q : SubjectQuery)
    (page : Option PageRequest) :
    d.nativeListSubjects en s (.str q.subjectType) (.str q.action) (.str q.objectType)
      (.str q.objectID) page =
    ((en.listPage s (en.listSubjects s q.subjectType q.action q.objectType q.objectID [])
      page).toOption).map Reply.listed := by
  simp only [Deployment.nativeListSubjects, nativeString, hrole, ne_eq, not_true_eq_false,
    q.subjectType.2, q.action.2, q.objectType.2, q.objectID.2, or_false, if_false,
    Option.bind_eq_bind, Option.bind_some, Engine.findSubjects, Option.getD_none]
  exact Option.map_eq_bind.symm

theorem nativeListActions_eq (q : ActionQuery) (context : Option Fields) :
    Deployment.nativeListActions en s (.str q.subjectType) (.str q.subjectID) (.str q.objectType)
      (.str q.objectID) (given (context.map .obj)) =
    (en.findActions s q.subjectType q.subjectID q.objectType q.objectID context).toOption := by
  simp only [Deployment.nativeListActions, nativeString, nativeContext_given, q.subjectType.2, q.subjectID.2,
    q.objectType.2, q.objectID.2, or_false, if_false, Option.bind_eq_bind, Option.bind_some]

/-! ## Agreement of the calls -/

section Store

variable (hs : s ∈ en.stores.names) (htrusted : d.policies.config.requireTokenForReads = false)
include hs

theorem env_decide (check : Check) (context : Option Fields) :
    (d.env en).decide s check context = (en.checkAccess s check context).toOption := by
  have hreach : d.reach en .check s = some s := d.reach_of_mem en hs (by decide)
  simp [Deployment.env, hreach]

theorem env_decideDetailed (check : Check) (context : Option Fields) :
    (d.env en).decideDetailed s check context = (en.checkAccessDetailed s check context).toOption := by
  have hreach : d.reach en .check s = some s := d.reach_of_mem en hs (by decide)
  simp [Deployment.env, hreach]

include htrusted

theorem check_agrees (req : EvalRequest) : d.Agrees en ctx (.check s req) := by
  have hne := ne_empty_of_plainName (en.stores.plain s hs)
  refine (agrees_of_run (run_check (d.unhooked en) d.no_token htrusted hne req)).mpr fun r hr => ?_
  rw [env_decide hs]
  cases hcheck : en.checkAccess s req.check req.context with
  | error f => simp [Engine.direct, hcheck] at hr
  | ok b =>
    simp only [Engine.direct, hcheck] at hr
    obtain rfl := Except.ok.inj hr
    cases b with
    | false => rfl
    | true => rfl

omit hs htrusted in
/-- The fields of a report come back without its decision. -/
theorem reportOf_merged (b : Bool) {fields : Fields}
    (hfields : ∀ f ∈ fields, f.1 ≠ "decision" ∧ f.1 ≠ "store") :
    reportOf (some (mergeFields [("decision", .bool b)] fields)) = .report b (some fields) := by
  have hnone : fields.lookup "decision" = none := by
    rw [List.lookup_eq_none_iff]
    intro f hf
    exact bne_iff_ne.mpr fun heq => (hfields f hf).1 heq.symm
  have hkept : fields.filter (fun f => decide (f.1 ≠ "decision" ∧ f.1 ≠ "store")) = fields :=
    List.filter_eq_self.mpr fun f hf => decide_eq_true (hfields f hf)
  have hmerged : mergeFields [("decision", .bool b)] fields = ("decision", .bool b) :: fields := by
    simp [mergeFields, hnone]
  rw [hmerged, reportOf, List.filter_cons_of_neg (by simp), hkept]
  rfl

theorem detailed_agrees (req : EvalRequest) : d.Agrees en ctx (.detailed s req) := by
  have hne := ne_empty_of_plainName (en.stores.plain s hs)
  refine (agrees_of_run (run_detailed (d.unhooked en) d.no_token htrusted hne req)).mpr
    fun r hr => ?_
  rw [env_decideDetailed hs]
  cases hcheck : en.checkAccessDetailed s req.check req.context with
  | error f => simp [Engine.direct, hcheck] at hr
  | ok x =>
    simp only [Engine.direct, hcheck] at hr
    obtain rfl := Except.ok.inj hr
    have hfields : ∀ f ∈ x.2, f.1 ≠ "decision" ∧ f.1 ≠ "store" := by
      simp only [Engine.checkAccessDetailed] at hcheck
      cases hreport : en.inStore s (en.explain s req.check (req.context.getD [])) with
      | error f => simp [hreport] at hcheck
      | ok report =>
        rw [hreport] at hcheck
        obtain rfl := Except.ok.inj hcheck
        intro f hf
        simpa using (List.mem_filter.mp hf).2
    show (Reply.report x.1 (some x.2)).Matches
      (reportOf (some (mergeFields [("decision", .bool x.1)] x.2)))
    rw [reportOf_merged x.1 hfields]
    exact ⟨rfl, rfl⟩

theorem actions_agree (q : ActionQuery) (context : Option Fields) :
    d.Agrees en ctx (.actions s q context) := by
  have hne := ne_empty_of_plainName (en.stores.plain s hs)
  refine (agrees_of_run (run_actions (d.unhooked en) d.no_token htrusted hne q context)).mpr
    fun r hr => ?_
  have hreach : d.reach en .listActions s = some s := d.reach_of_mem en hs (by decide)
  cases hactions : en.findActions s q.subjectType q.subjectID q.objectType q.objectID context with
  | error f => simp [Engine.direct, hactions] at hr
  | ok actions =>
    simp only [Engine.direct, hactions] at hr
    obtain rfl := Except.ok.inj hr
    simp only [Deployment.env, hreach, nativeListActions_eq, hactions]
    exact (Finset.sort_toFinset actions.toFinset _).symm

omit hs htrusted in
/-- A shared context that is sent along with the semantic says the same as none. -/
theorem mergeContext_sentContext (shared own : Option Fields) (semantic : String) :
    (mergeContext (sentContext shared semantic) own).getD [] = (mergeContext shared own).getD [] := by
  unfold sentContext
  split
  · cases shared with
    | none =>
      cases own with
      | none => rfl
      | some fields => rfl
    | some shared => rfl
  · rfl

theorem batch_agrees {reqs : List EvalRequest} (hreqs : reqs ≠ []) (globalContext : Option Fields)
    (semantic : String) : d.Agrees en ctx (.batch s reqs globalContext semantic) := by
  have hne := ne_empty_of_plainName (en.stores.plain s hs)
  have hloop : ∀ stop, runChecks (fun req : EvalRequest => (d.env en).decide s req.check
      (mergeContext (sentContext globalContext semantic) req.context)) stop reqs =
      runChecks (fun c => (en.checkAccess s c.1 (mergeContext globalContext c.2)).toOption) stop
        (reqs.map fun req => (req.check, req.context)) := by
    intro stop
    refine runChecks_congr ?_
    rw [List.forall₂_map_right_iff]
    refine List.forall₂_same.mpr fun req _ => ?_
    rw [env_decide hs, Engine.checkAccess, Engine.checkAccess, mergeContext_sentContext]
  intro r hr
  rw [run_batch (d.unhooked en) d.no_token htrusted hne, if_neg hreqs]
  simp only [Engine.direct, Engine.checkAccessBatch] at hr
  by_cases hsem : semantic = ""
  · simp [hsem] at hr
  · rw [if_pos ⟨hs, hsem⟩] at hr
    cases hstop : readSemantic semantic with
    | none => simp [hstop] at hr
    | some stop =>
      simp only [hstop] at hr
      rw [Option.bind_some, hloop stop]
      split at hr
      · simp at hr
      · rename_i results hresults
        obtain rfl := Except.ok.inj hr
        rw [hresults]
        exact ⟨_, rfl, rfl⟩

omit hs htrusted in
/-- A search without an answer has no ids. -/
theorem sort_getD (found : Option (List String)) :
    ((found.map List.toFinset).map (·.sort (· ≤ ·))).getD [] =
      (found.getD []).toFinset.sort (· ≤ ·) := by
  cases found with
  | none => simp
  | some l => rfl

theorem resources_agree_iff (q : ResourceQuery) (context : Option Fields)
    {page : Option PageRequest} (hread : ∀ p, page = some p → p.Readable)
    (hcarried : d.CarriesSearch page) :
    d.Agrees en ctx (.resources s q context page) ↔
      Surveyed (en.listObjects s q.subjectType q.subjectID q.action q.objectType (context.getD []))
        page := by
  have hne := ne_empty_of_plainName (en.stores.plain s hs)
  have hreach : d.reach en .listObjects s = some s := d.reach_of_mem en hs (by decide)
  have hrun := @run_resources (d.env en) d.backend ctx s (d.unhooked en) d.no_token htrusted hne q
    context page
  cases page with
  | none =>
    rw [agrees_of_run hrun]
    simp only [Deployment.env, hreach, nativeListObjects_eq hcarried.1]
    rw [← wholeSearch_agrees_iff hs, sort_getD]
    exact Iff.rfl
  | some p =>
    rw [agrees_of_run hrun]
    obtain ⟨w, p', hw, hp, hlimit, hstart, hreadable⟩ := exists_window p
    simp only [hw, Option.bind_some, Deployment.env, hreach, hp, nativeListObjects_eq hcarried.1]
    exact pagedSearch_agrees_iff hs (hread p rfl)
      (hreadable (hread p rfl) (hcarried.2 p rfl)) hlimit hstart

theorem subjects_agree_iff (q : SubjectQuery) {context : Option Fields}
    {page : Option PageRequest} (hread : ∀ p, page = some p → p.Readable)
    (hcarried : d.CarriesSearch page) (hcontext : context.getD [] = []) :
    d.Agrees en ctx (.subjects s q context page) ↔
      Surveyed (en.listSubjects s q.subjectType q.action q.objectType q.objectID (context.getD []))
        page := by
  have hne := ne_empty_of_plainName (en.stores.plain s hs)
  have hreach : d.reach en .listSubjects s = some s := d.reach_of_mem en hs (by decide)
  have hrun := @run_subjects (d.env en) d.backend ctx s (d.unhooked en) d.no_token htrusted hne q
    context page
  have hdirect : en.direct (.subjects s q context page) =
      en.listPage s (en.listSubjects s q.subjectType q.action q.objectType q.objectID []) page := by
    show en.listPage s (en.listSubjects _ _ _ _ _ (context.getD [])) page = _
    rw [hcontext]
  rw [hcontext]
  cases page with
  | none =>
    rw [agrees_of_run hrun, hdirect]
    simp only [Deployment.env, hreach, nativeListSubjects_eq hcarried.1]
    rw [← wholeSearch_agrees_iff hs, sort_getD]
    exact Iff.rfl
  | some p =>
    rw [agrees_of_run hrun, hdirect]
    obtain ⟨w, p', hw, hp, hlimit, hstart, hreadable⟩ := exists_window p
    simp only [hw, Option.bind_some, Deployment.env, hreach, hp, nativeListSubjects_eq hcarried.1]
    exact pagedSearch_agrees_iff hs (hread p rfl)
      (hreadable (hread p rfl) (hcarried.2 p rfl)) hlimit hstart

end Store

end Carried

/-! ## What is lost -/

/-- An engine of one store that grants everything and lists one id. Subjects are listed in one context
only. -/
def probe (s : String) (h : plainName s = true) (c : Fields) : Engine where
  stores := ⟨[s], by simpa using h⟩
  decide := fun _ _ _ => .ok true
  explain := fun _ _ _ => .ok [("decision", .bool true)]
  listObjects := fun _ _ _ _ _ _ _ => ⟨["x"], none⟩
  listSubjects := fun _ _ _ _ _ ctx _ => ⟨if ctx.isEmpty = c.isEmpty then ["x"] else [], none⟩
  listActions := fun _ _ _ _ _ _ => .ok ["x"]

/-- The context of a search for subjects. -/
def Call.subjectContext : Call → Fields
  | .subjects _ _ context _ => context.getD []
  | _ => []

section Lost

variable {d : Deployment} {ctx : CallContext} {call : Call}

/-- What is read of the one row of the probe. -/
theorem listPage_single {en : Engine} {s : String} {rows : Start → Scan} {page : Option PageRequest}
    (hs : s ∈ en.stores.names) (hread : ∀ p, page = some p → p.Readable)
    (hrows : ∀ start, rows start = ⟨["x"], none⟩) :
    en.listPage s rows page = .ok (.ids ["x"] none) := by
  cases page with
  | none => rw [listPage_none hs, hrows]; rfl
  | some p =>
    have hpos := p.limit_pos
    have hscan : (Scan.mk ["x"] none).limited (p.limit.toNat + 1) = .ok ["x"] := by
      rw [Scan.limited, if_neg (by simp; omega)]
    rw [listPage_some hs (hread p rfl), hrows, hscan]
    exact congrArg Except.ok (buildPage_of_length_le (by simp; omega))

/-- A batch of granted checks is decided. -/
theorem exists_runChecks {α : Type} {f : α → Option Bool} (hf : ∀ x, f x = some true)
    (stop : Semantic) (xs : List α) : ∃ results, runChecks f stop xs = some results := by
  induction xs with
  | nil => exact ⟨[], rfl⟩
  | cons x xs ih =>
    obtain ⟨results, hresults⟩ := ih
    simp only [runChecks, hf, hresults, Option.bind_eq_bind, Option.bind_some]
    split
    · exact ⟨_, rfl⟩
    · exact ⟨_, rfl⟩

section Probe

variable {s : String} {h : plainName s = true} {c : Fields}

theorem probe_inStore {α : Type} (x : Except Fault α) : (probe s h c).inStore s x = x :=
  if_pos (List.mem_singleton.mpr rfl)

theorem probe_checkAccess (check : Check) (context : Option Fields) :
    (probe s h c).checkAccess s check context = .ok true := probe_inStore _

theorem probe_checkAccessDetailed (check : Check) (context : Option Fields) :
    (probe s h c).checkAccessDetailed s check context = .ok (true, []) := by
  rw [Engine.checkAccessDetailed, probe_inStore]
  rfl

theorem probe_findActions (st sid rt rid : String) (context : Option Fields) :
    (probe s h c).findActions s st sid rt rid context = .ok ["x"] := by
  rw [Engine.findActions, probe_inStore]
  rfl

end Probe

/-- The direct backend answers with the probe, and not as if there was nothing. -/
theorem probe_direct (h : call.Answerable) :
    ∃ r, (probe call.store h.1 call.subjectContext).direct call = .ok r ∧
      ∀ r', call.negative = .ok r' → ¬ r.Matches r' := by
  have hstore : call.store ∈ (probe call.store h.1 call.subjectContext).stores.names :=
    List.mem_singleton.mpr rfl
  cases call with
  | check s req =>
    refine ⟨.decision true, congrArg (Except.map Reply.decision) (probe_checkAccess _ _), ?_⟩
    rintro r' hr' hmatch
    obtain rfl := Except.ok.inj hr'
    cases hmatch
  | detailed s req =>
    refine ⟨.report true (some []), ?_, ?_⟩
    · exact congrArg (Except.map fun r => Reply.report r.1 (some r.2))
        (probe_checkAccessDetailed _ _)
    · rintro r' hr' hmatch
      obtain rfl := Except.ok.inj hr'
      cases hmatch.1
  | batch s reqs globalContext semantic =>
    obtain ⟨hplain, hne, hsome⟩ := h
    obtain ⟨stop, hstop⟩ := Option.isSome_iff_exists.mp hsome
    obtain ⟨results, hresults⟩ := exists_runChecks
      (fun c : Check × Option Fields => congrArg Except.toOption
        (@probe_checkAccess s hplain [] c.1 (mergeContext globalContext c.2))) stop
      (reqs.map fun req => (req.check, req.context))
    refine ⟨.decisions (results.map (·.getD false)), ?_, ?_⟩
    · have hbatch : (probe s hplain []).checkAccessBatch s
          (reqs.map fun req => (req.check, req.context)) globalContext semantic =
          .ok (results.map (·.getD false)) := by
        rw [Engine.checkAccessBatch, if_pos ⟨List.mem_singleton.mpr rfl, hne⟩, hstop]
        simp only [hresults]
      exact congrArg (Except.map Reply.decisions) hbatch
    · rintro r' hr'
      cases hr'
  | resources s q context page =>
    refine ⟨.ids ["x"] none, listPage_single hstore h.2 fun start => rfl, ?_⟩
    rintro r' hr' hmatch
    obtain rfl := Except.ok.inj hr'
    exact absurd hmatch.1 (by simp)
  | subjects s q context page =>
    refine ⟨.ids ["x"] none, listPage_single hstore h.2 fun start => ?_, ?_⟩
    · simp [probe, Call.subjectContext]
    · rintro r' hr' hmatch
      obtain rfl := Except.ok.inj hr'
      exact absurd hmatch.1 (by simp)
  | actions s q context =>
    refine ⟨.names ["x"], congrArg (Except.map Reply.names) (probe_findActions _ _ _ _ _), ?_⟩
    rintro r' hr' hmatch
    obtain rfl := Except.ok.inj hr'
    have hlists : ["x"].toFinset = ([] : List String).toFinset := hmatch
    simp at hlists

theorem Backend.search_none (b : Backend) (page : Option PageRequest) :
    b.search page none none = .ok (.ids [] none) := by
  cases page with
  | none => rfl
  | some p => exact congrArg Except.ok (buildPage_nil p.limit_pos)

/-- Policies that demand a token answer nothing to a backend without one. -/
theorem run_untrusted {e : DetailEnv} {b : Backend} (h : Unhooked e.toEnv)
    (hb : b.forwardToken = false) (hdemand : e.config.requireTokenForReads = true) :
    b.run ctx e call = call.negative := by
  have hinvalid : ∀ i : Input, subjectValid e.toEnv (b.send ctx i) = false := by
    intro i
    simp [subjectValid, token_send hb, hdemand]
  have hsearch : ∀ i : Input, subjectSearchValid e.toEnv (b.send ctx i) = false := by
    intro i
    simp [subjectSearchValid, token_send hb, hdemand]
  have hopen : ∀ i : Input, enumerationRefused e.toEnv i = false := fun i =>
    enumerationRefused_of_unhooked h
  cases call with
  | check s req =>
    simp only [Backend.run, allow, graphAllow, hinvalid]
    rfl
  | detailed s req =>
    simp only [Backend.run, allowDetailed, hinvalid]
    rfl
  | batch s reqs c semantic =>
    have hbatch : batchSubjectValid e.toEnv
        (b.send ctx (Call.batch s reqs c semantic).input) = false := by
      simp [batchSubjectValid, hinvalid, hdemand]
    simp only [Backend.run, evaluations, hbatch]
    rfl
  | resources s q c page =>
    simp only [Backend.run, accessibleObjects, accessibleObjectsPage, hopen, hinvalid]
    exact b.search_none page
  | subjects s q c page =>
    simp only [Backend.run, accessibleSubjects, accessibleSubjectsPage, hopen, hsearch]
    exact b.search_none page
  | actions s q c =>
    have hgraph : graphPermittedActions e.toEnv
        (b.send ctx (Call.actions s q c).input) = none := by
      simp [graphPermittedActions, hinvalid]
    rcases permittedActions_of_unanswered hgraph with hnone | hempty
    · simp only [Backend.run, hnone]
      rfl
    · simp only [Backend.run, hempty]
      simp [query]
      rfl

theorem listRows_nil {rows : Start → Scan} (h : ∀ start, rows start = ⟨[], none⟩)
    (limit offset : ℤ) (after : String) :
    listRows rows limit offset after = .ok [] ∨ listRows rows limit offset after = .error .other := by
  have hempty : ∀ start n, (rows start).limited n = .ok [] := by
    intro start n
    rw [h, Scan.limited]
    split
    · simp
    · rfl
  unfold listRows
  split
  · exact .inr rfl
  · split
    · exact .inl (hempty _ _)
    · split
      · exact .inr rfl
      · exact .inl (hempty _ _)

/-- A list that has no rows, or that is not read, reports no ids. -/
theorem reported_eq_nil {en : Engine} {s : String} {rows : Start → Scan}
    {page : Option PageRequest} (h : ∀ offset after,
      listRows rows ((Engine.pageParams page).1 + 1) offset after = .ok [] ∨
        listRows rows ((Engine.pageParams page).1 + 1) offset after = .error .other) :
    reported en s rows page = [] := by
  obtain ⟨limit, offset, after, hparams⟩ :
      ∃ limit offset after, Engine.pageParams page = (limit, offset, after) := ⟨_, _, _, rfl⟩
  have hstore : en.inStore s (listRows rows (limit + 1) offset after) = .ok [] ∨
      en.inStore s (listRows rows (limit + 1) offset after) = .error .other := by
    rw [hparams] at h
    unfold Engine.inStore
    split
    · exact h offset after
    · exact .inr rfl
  rw [reported, Engine.listPage, hparams]
  rcases hstore with hstore | hstore
  · simp only [hstore]
    simp [Engine.noEntity, Except.toOption, Reply.listed, buildPage, bind, Except.bind, pure,
      Except.pure]
  · simp only [hstore]
    rfl

/-- A page that leaves no room for its extra row is not read behind the policies. -/
theorem reported_overflow {en : Engine} {s : String} {rows : Start → Scan} {p : PageRequest}
    (h : maxInt ≤ p.limit) : reported en s rows (some p) = [] := by
  refine reported_eq_nil fun offset after => .inr ?_
  have hlimit : (Engine.pageParams (some p)).1 = p.limit := rfl
  rw [listRows, if_pos]
  right
  left
  omega

theorem nativeListObjects_refused {en : Engine} {s : String} (hrole : d.searchRequiredRole ≠ "")
    (st sid action rt : Json) (context : Option Json) (page : Option PageRequest) :
    d.nativeListObjects en s st sid action rt context page = none := by
  simp [Deployment.nativeListObjects, hrole]

theorem nativeListSubjects_refused {en : Engine} {s : String} (hrole : d.searchRequiredRole ≠ "")
    (st action rt rid : Json) (page : Option PageRequest) :
    d.nativeListSubjects en s st action rt rid page = none := by
  simp [Deployment.nativeListSubjects, hrole]

/-- The objects of a search that is not carried. -/
theorem objects_lost {en : Engine} {s : String} (q : ResourceQuery) (context : Option Fields)
    {page : Option PageRequest} (hlost : ¬ d.CarriesSearch page) {page' : Option PageRequest}
    (hpage : ∀ p, page = some p → ∃ p', page' = some p' ∧ p'.limit = p.limit + 1) :
    (d.nativeListObjects en s (.str q.subjectType) (.str q.subjectID) (.str q.action)
      (.str q.objectType) (given (context.map .obj)) page').getD [] = [] := by
  by_cases hrole : d.searchRequiredRole = ""
  · obtain ⟨p, hp, hlimit⟩ : ∃ p, page = some p ∧ p.limit = maxInt - 1 := by
      by_contra hnone
      exact hlost ⟨hrole, fun p hp hne => hnone ⟨p, hp, hne⟩⟩
    obtain ⟨p', rfl, hlimit'⟩ := hpage p hp
    rw [nativeListObjects_eq hrole]
    exact reported_overflow (by omega)
  · rw [nativeListObjects_refused hrole]
    rfl

/-- The subjects of a search that is not carried. The probe lists none without the context. -/
theorem subjects_lost {s : String} {hs : plainName s = true} (q : SubjectQuery)
    {context : Option Fields} {page : Option PageRequest}
    (hlost : ¬ (d.CarriesSearch page ∧ context.getD [] = [])) {page' : Option PageRequest}
    (hpage : ∀ p, page = some p → ∃ p', page' = some p' ∧ p'.limit = p.limit + 1) :
    (d.nativeListSubjects (probe s hs (context.getD [])) s (.str q.subjectType) (.str q.action)
      (.str q.objectType) (.str q.objectID) page').getD [] = [] := by
  by_cases hrole : d.searchRequiredRole = ""
  · rw [nativeListSubjects_eq hrole]
    by_cases hcontext : context.getD [] = []
    · obtain ⟨p, hp, hlimit⟩ : ∃ p, page = some p ∧ p.limit = maxInt - 1 := by
        by_contra hnone
        exact hlost ⟨⟨hrole, fun p hp hne => hnone ⟨p, hp, hne⟩⟩, hcontext⟩
      obtain ⟨p', rfl, hlimit'⟩ := hpage p hp
      exact reported_overflow (by omega)
    · refine reported_eq_nil fun offset after => listRows_nil (fun start => ?_) _ _ _
      simp [probe, hcontext]
  · rw [nativeListSubjects_refused hrole]
    rfl

section Searches

variable {s : String} (hdemand : d.policies.config.requireTokenForReads = false) (hne : s ≠ "")
include hdemand hne

theorem run_resources_lost {en : Engine} (hs : s ∈ en.stores.names) (q : ResourceQuery)
    (context : Option Fields) {page : Option PageRequest} (hlost : ¬ d.CarriesSearch page) :
    d.backend.run ctx (d.env en) (.resources s q context page) = .ok (.ids [] none) := by
  have hreach : d.reach en .listObjects s = some s := d.reach_of_mem en hs (by decide)
  rw [run_resources (d.unhooked en) d.no_token hdemand hne q context page]
  cases page with
  | none =>
    simp only [Deployment.env, hreach]
    rw [sort_getD, objects_lost q context hlost (fun p hp => by cases hp)]
    simp
  | some p =>
    obtain ⟨w, p', hw, hp, hlimit, -, -⟩ := exists_window p
    simp only [hw, Option.bind_some, Deployment.env, hreach, hp]
    rw [objects_lost q context hlost, buildPage_nil p.limit_pos]
    rintro _ ⟨⟩
    exact ⟨p', rfl, hlimit⟩

theorem run_subjects_lost {hs : plainName s = true} (q : SubjectQuery) {context : Option Fields}
    {page : Option PageRequest} (hlost : ¬ (d.CarriesSearch page ∧ context.getD [] = [])) :
    d.backend.run ctx (d.env (probe s hs (context.getD []))) (.subjects s q context page) =
      .ok (.ids [] none) := by
  have hreach : d.reach (probe s hs (context.getD [])) .listSubjects s = some s :=
    d.reach_of_mem _ (List.mem_singleton.mpr rfl) (by decide)
  rw [run_subjects (d.unhooked _) d.no_token hdemand hne q context page]
  cases page with
  | none =>
    simp only [Deployment.env, hreach]
    rw [sort_getD, subjects_lost q hlost (fun p hp => by cases hp)]
    simp
  | some p =>
    obtain ⟨w, p', hw, hp, hlimit, -, -⟩ := exists_window p
    simp only [hw, Option.bind_some, Deployment.env, hreach, hp]
    rw [subjects_lost q hlost, buildPage_nil p.limit_pos]
    rintro _ ⟨⟩
    exact ⟨p', rfl, hlimit⟩

end Searches

/-- **A call that is not carried** is answered as if there was nothing. -/
theorem run_probe (h : call.Answerable) (hlost : ¬ d.Carries call) :
    d.backend.run ctx (d.env (probe call.store h.1 call.subjectContext)) call = call.negative := by
  cases hdemand : d.policies.config.requireTokenForReads with
  | true => exact run_untrusted (d.unhooked _) d.no_token hdemand
  | false =>
    have hne := ne_empty_of_plainName h.1
    cases call with
    | check s req => exact absurd ⟨hdemand, trivial⟩ hlost
    | detailed s req => exact absurd ⟨hdemand, trivial⟩ hlost
    | actions s q context => exact absurd ⟨hdemand, trivial⟩ hlost
    | batch s reqs globalContext semantic =>
      have hnil : reqs = [] := by
        by_contra hreqs
        exact hlost ⟨hdemand, hreqs⟩
      have hrun := @run_batch _ d.backend ctx s (d.unhooked (probe s h.1 [])) d.no_token hdemand hne
        reqs globalContext semantic
      rw [if_pos hnil] at hrun
      exact hrun
    | resources s q context page =>
      exact run_resources_lost hdemand hne (List.mem_singleton.mpr rfl) q context
        fun hcarried => hlost ⟨hdemand, hcarried⟩
    | subjects s q context page =>
      exact run_subjects_lost hdemand hne q fun hcarried => hlost ⟨hdemand, hcarried⟩

/-- The lists of the probe are surveyed. -/
theorem probe_settled {s : String} {hs : plainName s = true} {c : Fields} :
    (probe s hs c).Settled call := by
  intro _
  have hsingle : ∀ (rows : Start → Scan) page, (∀ start, (rows start).fault = none) →
      (∀ start, (rows start).rows.length ≤ 1) → Surveyed rows page := by
    intro rows page hfault hlength
    cases page with
    | none => exact le_trans (hlength _) (by decide)
    | some p => exact fun _ => hfault _
  cases call with
  | resources s q context page => exact hsingle _ _ (fun _ => rfl) fun _ => le_rfl
  | subjects s q context page =>
    refine hsingle _ _ (fun _ => rfl) fun _ => ?_
    show (if _ then ["x"] else []).length ≤ 1
    split
    · exact le_rfl
    · exact Nat.zero_le _
  | _ => trivial

end Lost

/-! ## The two backends -/

section Backends

variable {d : Deployment} {en : Engine} {ctx : CallContext} {call : Call}

theorem listPage_other {s : String} {rows : Start → Scan} {page : Option PageRequest}
    (h : en.inStore s (listRows rows ((Engine.pageParams page).1 + 1) (Engine.pageParams page).2.1
      (Engine.pageParams page).2.2) = .error .other) : en.listPage s rows page = .error .other := by
  simp only [Engine.listPage, h]
  rfl

/-- A page that is not readable is refused. -/
theorem listPage_unreadable {s : String} {rows : Start → Scan} {p : PageRequest}
    (h : ¬ p.Readable) : en.listPage s rows (some p) = .error .other := by
  refine listPage_other ?_
  have hrows : listRows rows (p.limit + 1) p.offset p.after = .error .other := by
    unfold listRows
    split
    · rfl
    · rename_i hint
      -- only an offset that counts is left to be refused
      have hoffset : p.after = "" ∧ p.offset < 0 := by
        by_contra hpos
        refine h ⟨by omega, by omega, by omega, fun hafter => ?_⟩
        by_contra hneg
        exact hpos ⟨hafter, by omega⟩
      simp [unlessEmpty, hoffset.1, hoffset.2]
  show en.inStore s (listRows rows (p.limit + 1) p.offset p.after) = _
  rw [hrows]
  unfold Engine.inStore
  split
  · rfl
  · rfl

/-- The direct backend answers only about a store of the engine. -/
theorem mem_of_direct {r : Reply} (h : en.direct call = .ok r) :
    call.store ∈ en.stores.names := by
  by_contra hs
  have hin : ∀ {α : Type} (x : Except Fault α), en.inStore call.store x = .error .other :=
    fun x => if_neg hs
  cases call with
  | check s req =>
    have hcheck : en.checkAccess s req.check req.context = .error .other := hin _
    simp [Engine.direct, hcheck] at h
  | detailed s req =>
    have hcheck := hin (en.explain s req.check (req.context.getD []))
    simp only [Engine.direct, Engine.checkAccessDetailed] at h
    rw [show en.inStore s _ = _ from hcheck] at h
    cases h
  | batch s reqs globalContext semantic =>
    have hnone : ¬ (s ∈ en.stores.names ∧ semantic ≠ "") := fun hsem => hs hsem.1
    simp [Engine.direct, Engine.checkAccessBatch, if_neg hnone] at h
  | resources s q context page =>
    rw [show en.direct (.resources s q context page) = _ from listPage_other (hin _)] at h
    cases h
  | subjects s q context page =>
    rw [show en.direct (.subjects s q context page) = _ from listPage_other (hin _)] at h
    cases h
  | actions s q context =>
    have hactions : en.findActions s q.subjectType q.subjectID q.objectType q.objectID context =
        .error .other := congrArg (Engine.noEntity []) (hin _)
    simp [Engine.direct, hactions] at h

/-- The direct backend answers only an answerable call. -/
theorem answerable_of_direct {r : Reply} (h : en.direct call = .ok r) : call.Answerable := by
  refine ⟨en.stores.plain _ (mem_of_direct h), ?_⟩
  cases call with
  | batch s reqs globalContext semantic =>
    simp only [Engine.direct, Engine.checkAccessBatch] at h
    by_cases hsem : s ∈ en.stores.names ∧ semantic ≠ ""
    · refine ⟨hsem.2, ?_⟩
      cases hstop : readSemantic semantic with
      | none => simp [hstop] at h
      | some stop => rfl
    · simp [if_neg hsem] at h
  | resources s q context page =>
    rintro p rfl
    by_contra hp
    rw [show en.direct (.resources s q context (some p)) = _ from listPage_unreadable hp] at h
    cases h
  | subjects s q context page =>
    rintro p rfl
    by_contra hp
    rw [show en.direct (.subjects s q context (some p)) = _ from listPage_unreadable hp] at h
    cases h
  | _ => trivial

/-- A call that is carried to a store of the engine. -/
theorem agrees_iff_of_carries (hs : call.store ∈ en.stores.names) (h : call.Answerable)
    (hcarried : d.Carries call) : d.Agrees en ctx call ↔ en.Settled call := by
  obtain ⟨htrusted, hcall⟩ := hcarried
  refine Iff.trans ?_ (imp_iff_right hs).symm
  cases call with
  | check s req => exact iff_of_true (check_agrees hs htrusted req) trivial
  | detailed s req => exact iff_of_true (detailed_agrees hs htrusted req) trivial
  | batch s reqs globalContext semantic =>
    exact iff_of_true (batch_agrees hs htrusted hcall globalContext semantic) trivial
  | resources s q context page => exact resources_agree_iff hs htrusted q context h.2 hcall
  | subjects s q context page => exact subjects_agree_iff hs htrusted q h.2 hcall.1 hcall.2
  | actions s q context => exact iff_of_true (actions_agree hs htrusted q context) trivial

end Backends

/-! ## A context that is lost -/

/-- Policies without hooks in front of a callback that demands no role. -/
def trusting : Deployment where
  policies := reachable true
  backend := trusted
  native := ⟨composeCallback, composeCallback⟩
  searchRequiredRole := ""
  no_global_hooks := rfl
  no_store_hooks := fun _ => rfl
  no_token := rfl

/-- Who reads the document in the office. -/
def officeReaders : Call :=
  .subjects "demo" ⟨userPart, readPart, docPart, onePart⟩ (some [("office", .bool true)]) none

end PgAuthz.Opa
