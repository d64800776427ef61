import Mathlib.Data.List.Dedup
import PgAuthz.Fixture.Runner

/-!
# The verdicts of a fixture run

An assertion is sound if its engine call completes without an error and answers what the assertion expects: the same
truth value, the same set, the same reasons in order. A run should report an assertion as passed exactly if it is
sound, whichever other assertions run before it.

Checks are reported so. A search is not, where its call raises behind rows that are the expected ones: the error is
not asked for, so an empty expectation passes against a model that lacks the relation. After a call of a search has
raised, the transaction rejects the calls for the later relations of the same search, and these are judged by the
way in which the driver reports a rejection. Reasons are compared as they are printed, where an empty reason is
nothing and a space parts two.

## Main definitions

* `Assertion.Sound`: what an assertion says of the engine
* `Reliable`: the runs of a fixture, and of any of its assertions, report exactly the sound ones as passed
* `Undisturbed`: the condition on the engine and the fixture

## Main results

* `runTests_verdicts`: what a run reports of each assertion
* `reliable_iff`: the runs are reliable exactly if no test is disturbed
-/

namespace PgAuthz.Fixture

open Keyed Savepoints

variable {C J : Type} (engine : Engine J) (marshal : C → Option J)

/-! ## What the assertions say -/

/-- The call of a check. -/
def CheckCase.ask (c : CheckCase C) (rel : String) : Except String (CheckQuery J) :=
  match parseRef c.user, parseRef c.object, c.form marshal with
  | .ok u, .ok o, .ok form => .ok ⟨u.typ, u.id, rel, o.typ, o.id, form⟩
  | .error e, _, _ => .error e
  | _, .error e, _ => .error e
  | _, _, .error e => .error e

/-- The call of a search. -/
def Search.ask (l : Search C J) (rel : String) : Except String (SearchQuery J) :=
  match parseRef l.entity, contextualTuplesJSON l.contextualTuples with
  | .ok entity, .ok tuples => .ok (l.query entity rel (l.context.bind marshal) tuples)
  | .error e, _ => .error e
  | _, .error e => .error e

/-- The call for the actions of a subject. -/
def ListActionsCase.ask (a : ListActionsCase C) : Except String (SearchQuery J) :=
  match parseRef a.user, parseRef a.object with
  | .ok u, .ok o => a.query marshal u o
  | .error e, _ => .error e
  | _, .error e => .error e

/-- The call of an explanation. -/
def ExplainCase.ask (e : ExplainCase) : Except String ExplainQuery :=
  match parseRef e.user, parseRef e.object with
  | .ok u, .ok o => .ok (e.query u o)
  | .error e, _ => .error e
  | _, .error e => .error e

/-- The call completes, and has the expected rows. -/
def Finds (asked : Except String (SearchQuery J)) (shown : String → String) (want : List String) : Prop :=
  ∃ q rows, asked = .ok q ∧ engine.search.answer q = .delivered rows none ∧
    ∀ x, x ∈ rows.map shown ↔ x ∈ want

/-- The call raises, behind the expected rows. -/
def Loses (asked : Except String (SearchQuery J)) (shown : String → String) (want : List String) : Prop :=
  ∃ q rows e, asked = .ok q ∧ engine.search.answer q = .delivered rows (some e) ∧
    ∀ x, x ∈ rows.map shown ↔ x ∈ want

namespace Search

variable (l : Search C J) (x : String × List String)

/-- A result as the fixtures write it. -/
def shown (id : String) : String := l.typ ++ ":" ++ id

/-- An assertion of a search is sound. -/
def Sound : Prop := Finds engine (l.ask marshal x.1) l.shown x.2

/-- The error of an assertion of a search is lost. -/
def Lost : Prop := Loses engine (l.ask marshal x.1) l.shown x.2

/-- The call of an assertion of a search raises. -/
def Raises : Prop := ∃ q, l.ask marshal x.1 = .ok q ∧ (engine.search.answer q).error.isSome

/-- Nothing is expected, and the driver reports a rejected call behind its rows, of which there are none. -/
def Silent : Prop :=
  ∃ q e, l.ask marshal x.1 = .ok q ∧ engine.search.rejection q = .delivered [] (some e) ∧ x.2 = []

end Search

/-- **An assertion is sound**: its engine call completes without an error, and its answer is the expected one. -/
def Assertion.Sound : Assertion C J → Prop
  | .check c rel want => ∃ q, c.ask marshal rel = .ok q ∧ engine.check q = .ok want
  | .search l rel want => l.Sound engine marshal (rel, want)
  | .listActions a => Finds engine (a.ask marshal) id a.expect
  | .explain e => ∃ q, e.ask = .ok q ∧ engine.explain q = .ok e.expectReasons

/-! ## Reliable runs -/

/-- The searches of a test. -/
def FixtureTest.searches (t : FixtureTest C) : List (Search C J) :=
  t.listObjects.map (·.search t.name) ++ t.listSubjects.map (·.search t.name)

/-- The assertions of a test. -/
def FixtureTest.assertions (t : FixtureTest C) : List (Assertion C J) :=
  t.check.flatMap (fun c => c.assertions.rows.map fun x => Assertion.check c x.1 x.2) ++
    t.searches.flatMap (fun l => l.assertions.rows.map fun x => Assertion.search l x.1 x.2) ++
      t.listActions.map Assertion.listActions ++ t.explain.map Assertion.explain

/-- A test with some of the assertions of another one. -/
structure FixtureTest.Within (t' t : FixtureTest C) : Prop where
  name : t'.name = t.name
  check : ∀ c' ∈ t'.check, ∃ c ∈ t.check, c' = { c with assertions := c'.assertions } ∧
    ∀ x ∈ c'.assertions, x ∈ c.assertions
  listObjects : ∀ l' ∈ t'.listObjects, ∃ l ∈ t.listObjects, l' = { l with assertions := l'.assertions } ∧
    ∀ x ∈ l'.assertions, x ∈ l.assertions
  listSubjects : ∀ l' ∈ t'.listSubjects, ∃ l ∈ t.listSubjects, l' = { l with assertions := l'.assertions } ∧
    ∀ x ∈ l'.assertions, x ∈ l.assertions
  listActions : ∀ a ∈ t'.listActions, a ∈ t.listActions
  explain : ∀ e ∈ t'.explain, e ∈ t.explain

/-- What a report says of an assertion, if it is about one: whether it has failed. -/
def Report.verdict (r : Report C J) : Option (Assertion C J) × Bool := (r.assertion, r.result.failed)

/-- A verdict is right: an assertion passes exactly if it is sound, and a case that cannot be read fails. -/
def Honest : Option (Assertion C J) × Bool → Prop
  | (some a, failed) => failed = false ↔ a.Sound engine marshal
  | (none, failed) => failed = true

/-- **The runs of a fixture are reliable**: whichever of its assertions run, each of them is reported as passed exactly
if it is sound. -/
def Reliable (tests : List (FixtureTest C)) : Prop :=
  ∀ run : List (FixtureTest C), (∀ t' ∈ run, ∃ t ∈ tests, t'.Within t) →
    (∀ r ∈ (runTests engine marshal run false).1, Honest engine marshal r.verdict) ∧
    ∀ t' ∈ run, ∀ a ∈ t'.assertions, a.Sound engine marshal →
      ∃ r ∈ (runTests engine marshal run false).1, r.assertion = some a ∧ r.result.failed = false

/-- No error of a search is lost, and after a call that raises the later assertions are sound exactly if they are
silent. -/
structure Search.Undisturbed (l : Search C J) : Prop where
  heard : ∀ x ∈ l.assertions, ¬ l.Lost engine marshal x
  apart : ∀ x ∈ l.assertions, ∀ y ∈ l.assertions, x.1 < y.1 → l.Raises engine marshal x →
    (l.Sound engine marshal y ↔ l.Silent engine marshal y)

/-- **No assertion of a test is disturbed.** -/
structure FixtureTest.Undisturbed (t : FixtureTest C) : Prop where
  searches : ∀ l ∈ t.searches, l.Undisturbed engine marshal
  actions : ∀ a ∈ t.listActions, (Finds engine (a.ask marshal) id a.expect → ∃ kinds, engine.kinds = .ok kinds) ∧
    (Loses engine (a.ask marshal) id a.expect → ∃ e, engine.kinds = .error e)
  explain : ∀ e ∈ t.explain, ∀ q reasons, e.ask = .ok q → engine.explain q = .ok reasons →
    sprint reasons = sprint e.expectReasons → reasons = e.expectReasons

/-! ## The verdicts -/

/-- Whether an assertion of a check fails. -/
def CheckCase.fails (c : CheckCase C) (x : String × Bool) : Bool :=
  match c.ask marshal x.1 with
  | .error _ => true
  | .ok q => match engine.check q with
    | .error _ => true
    | .ok got => got ≠ x.2

/-- Whether a search fails on what is read of its rows. -/
def searchFails (asked : Except String (SearchQuery J)) (aborted : Bool) (shown : String → String)
    (want : List String) : Bool :=
  match asked with
  | .error _ => true
  | .ok q => match (engine.search.query aborted q).1.read with
    | .error _ => true
    | .ok ids => !sameSet (ids.map shown) want

/-- Whether the call of an assertion of a search raises. -/
def Search.raises (l : Search C J) (x : String × List String) : Bool :=
  match l.ask marshal x.1 with
  | .error _ => false
  | .ok q => (engine.search.answer q).error.isSome

/-- Whether an assertion on the actions of a subject fails. -/
def ListActionsCase.fails (a : ListActionsCase C) : Bool :=
  match engine.kinds with
  | .error _ => true
  | .ok _ => searchFails engine (a.ask marshal) false id a.expect

/-- Whether an assertion on the reasons of an explanation fails. -/
def ExplainCase.fails (e : ExplainCase) : Bool :=
  match e.ask with
  | .error _ => true
  | .ok q => match engine.explain q with
    | .error _ => true
    | .ok reasons => sprint reasons ≠ sprint e.expectReasons

/-- The verdicts on a check. -/
def CheckCase.verdicts (c : CheckCase C) : List (Option (Assertion C J) × Bool) :=
  match parseRef c.user, parseRef c.object with
  | .ok _, .ok _ => c.assertions.rows.map fun x => (some (.check c x.1 x.2), c.fails engine marshal x)
  | _, _ => [(none, true)]

/-- The verdicts on a search. -/
def Search.verdicts (l : Search C J) : List (Option (Assertion C J) × Bool) :=
  match parseRef l.entity with
  | .ok _ => l.assertions.rows.map fun x => (some (.search l x.1 x.2),
      searchFails engine (l.ask marshal x.1) (raisedBefore Prod.fst (l.raises engine marshal) l.assertions.rows x)
        l.shown x.2)
  | .error _ => [(none, true)]

/-- The verdicts on a test. -/
def FixtureTest.verdicts (t : FixtureTest C) : List (Option (Assertion C J) × Bool) :=
  t.check.flatMap (CheckCase.verdicts engine marshal) ++ t.searches.flatMap (Search.verdicts engine marshal) ++
    t.listActions.map (fun a => (some (.listActions a), a.fails engine marshal)) ++
      t.explain.map fun e => (some (.explain e), e.fails engine)

section Verdicts

variable {engine marshal} {tc : FixtureTest C}

@[simp]
theorem fail_failed (current : Result) (name detail : String) : (current.fail name detail).failed = true := rfl

@[simp]
theorem pass_failed (current : Result) (name : String) : (current.pass name).failed = false := rfl

/-! ### Checks -/

theorem runCheckAssertion_verdict {c : CheckCase C} {u o : Ref} (hu : parseRef c.user = .ok u)
    (ho : parseRef c.object = .ok o) (x : String × Bool) (s : CaseState) :
    (runCheckAssertion engine marshal tc c u o x s).1.verdict =
      (some (.check c x.1 x.2), c.fails engine marshal x) := by
  unfold runCheckAssertion runFixtureCheck CheckCase.fails CheckCase.ask
  rw [hu, ho]
  cases c.form marshal with
  | error e => rfl
  | ok form =>
    dsimp only [scalar, fresh, Bool.false_eq_true, if_false]
    cases engine.check ⟨u.typ, u.id, x.1, o.typ, o.id, form⟩ with
    | error e => rfl
    | ok got => by_cases hgot : got = x.2 <;> simp [Report.verdict, hgot]

theorem runCheck_verdicts (c : CheckCase C) (s : CaseState) :
    (runCheck engine marshal tc c s).1.map Report.verdict = c.verdicts engine marshal := by
  unfold runCheck CheckCase.verdicts
  cases hu : parseRef c.user with
  | error e => rfl
  | ok u =>
    cases ho : parseRef c.object with
    | error e => rfl
    | ok o =>
      exact @sweep_map _ _ _ _ _ (fun _ => True) _ _ (fun x s _ => runCheckAssertion_verdict hu ho x s)
        (fun _ _ _ => trivial) _ _ trivial

/-! ### Searches -/

theorem runSearchAssertion_spec {l : Search C J} {entity : Ref} (hentity : parseRef l.entity = .ok entity)
    (x : String × List String) (s : CaseState) :
    (runSearchAssertion engine marshal tc l entity x s).1.verdict =
      (some (.search l x.1 x.2), searchFails engine (l.ask marshal x.1) s.aborted l.shown x.2) ∧
    (runSearchAssertion engine marshal tc l entity x s).2.aborted = (s.aborted || l.raises engine marshal x) := by
  unfold runSearchAssertion searchFails Search.raises Search.ask
  rw [hentity]
  cases contextualTuplesJSON l.contextualTuples with
  | error e => exact ⟨rfl, (Bool.or_false _).symm⟩
  | ok tuples =>
    have hfailed := engine.search.query_failed s.aborted (l.query entity x.1 (l.context.bind marshal) tuples)
    dsimp only
    revert hfailed
    obtain ⟨rows, aborted⟩ := engine.search.query s.aborted (l.query entity x.1 (l.context.bind marshal) tuples)
    intro hfailed
    dsimp only at hfailed ⊢
    cases rows.read with
    | error e => exact ⟨rfl, hfailed⟩
    | ok ids =>
      have hshown : (fun id => l.typ ++ ":" ++ id) = l.shown := rfl
      refine ⟨?_, hfailed⟩
      simp only [hshown]
      by_cases hsame : sameSet (ids.map l.shown) x.2 = true
      · rw [if_pos hsame]
        simp [Report.verdict, hsame]
      · rw [if_neg hsame]
        simp [Report.verdict, hsame]

theorem runSearch_verdicts (l : Search C J) (s : CaseState) :
    (runSearch engine marshal tc l s).1.map Report.verdict = l.verdicts engine marshal := by
  unfold runSearch Search.verdicts
  cases hentity : parseRef l.entity with
  | error e => rfl
  | ok entity =>
    let verdict := fun (x : String × List String) aborted =>
      (some (Assertion.search l x.1 x.2), searchFails engine (l.ask marshal x.1) aborted l.shown x.2)
    have hverdict : ∀ x s, (runSearchAssertion engine marshal tc l entity x s).1.verdict = verdict x s.aborted :=
      fun x s => (runSearchAssertion_spec hentity x s).1
    have haborted : ∀ x s, (runSearchAssertion engine marshal tc l entity x s).2.aborted =
        (s.aborted || l.raises engine marshal x) := fun x s => (runSearchAssertion_spec hentity x s).2
    rw [sweep_map_of_sorted hverdict haborted l.assertions.sorted]
    simp [fresh, verdict]

/-! ### Actions -/

/-- The permissions that are loaded are those of the engine. -/
def Loaded (engine : Engine J) (s : CaseState × Option (List String)) : Prop :=
  ∀ perms ∈ s.2, permissionNames engine = .ok perms

theorem permissionNames_eq_error {e : String} (h : engine.kinds = .error e) : permissionNames engine = .error e := by
  rw [permissionNames, h]
  rfl

theorem permissionNames_eq_ok {kinds : List (String × String)} (h : engine.kinds = .ok kinds) :
    permissionNames engine = .ok ((kinds.filter (·.2 = "permission")).map Prod.fst) := by
  rw [permissionNames, h]
  rfl

theorem loadPermissions_spec {s : CaseState × Option (List String)} (hs : Loaded engine s) :
    (loadPermissions engine (fresh s.1, s.2)).1 = permissionNames engine ∧
    ∀ perms, permissionNames engine = .ok perms → (loadPermissions engine (fresh s.1, s.2)).2.aborted = false := by
  obtain ⟨state, loaded⟩ := s
  cases loaded with
  | some perms => exact ⟨(hs perms rfl).symm, fun _ _ => rfl⟩
  | none =>
    refine ⟨rfl, fun perms hperms => ?_⟩
    simp [loadPermissions, scalar, fresh, hperms]

theorem runActions_spec (a : ListActionsCase C) {s : CaseState × Option (List String)} (hs : Loaded engine s) :
    (runActions engine marshal tc a s).1.verdict = (some (.listActions a), a.fails engine marshal) ∧
    Loaded engine (runActions engine marshal tc a s).2 := by
  have hload := loadPermissions_spec hs
  unfold runActions ListActionsCase.fails ListActionsCase.ask searchFails
  revert hload
  obtain ⟨loaded, state⟩ := loadPermissions engine (fresh s.1, s.2)
  rintro ⟨hloaded, hstate⟩
  dsimp only at hloaded hstate
  cases hkinds : engine.kinds with
  | error e =>
    rw [hloaded, permissionNames_eq_error hkinds]
    exact ⟨rfl, fun perms hperms => absurd hperms (Option.not_mem_none perms)⟩
  | ok kinds =>
    have hperms := permissionNames_eq_ok hkinds
    rw [hloaded, hperms]
    have hkept : ∀ state', Loaded engine (state', some ((kinds.filter (·.2 = "permission")).map Prod.fst)) :=
      fun state' perms h => by rw [hperms, Option.mem_some.mp h]
    dsimp only
    cases parseRef a.user with
    | error e => exact ⟨rfl, hkept _⟩
    | ok u =>
      cases parseRef a.object with
      | error e => exact ⟨rfl, hkept _⟩
      | ok o =>
        dsimp only
        cases a.query marshal u o with
        | error e => exact ⟨rfl, hkept _⟩
        | ok q =>
          dsimp only
          rw [hstate _ hperms]
          cases (engine.search.query false q).1.read with
          | error e => exact ⟨rfl, hkept _⟩
          | ok ids =>
            refine ⟨?_, hkept _⟩
            dsimp only
            rw [List.map_id]
            by_cases hsame : sameSet ids a.expect = true
            · simp [Report.verdict, hsame]
            · simp [Report.verdict, hsame]

/-! ### Explanations -/

theorem runExplain_verdict (e : ExplainCase) (s : CaseState) :
    (runExplain engine tc e s).1.verdict = ((some (.explain e) : Option (Assertion C J)), e.fails engine) := by
  unfold runExplain ExplainCase.fails ExplainCase.ask
  cases parseRef e.user with
  | error text => rfl
  | ok u =>
    cases parseRef e.object with
    | error text => rfl
    | ok o =>
      dsimp only [scalar, fresh, Bool.false_eq_true, if_false]
      cases engine.explain (e.query u o) with
      | error text => rfl
      | ok reasons => by_cases hsame : sprint reasons = sprint e.expectReasons <;> simp [Report.verdict, hsame]

/-! ### Tests -/

/-- The verdicts on a test. -/
theorem runFixtureCase_verdicts (tc : FixtureTest C) :
    (runFixtureCase engine marshal tc false).1.map Report.verdict = tc.verdicts engine marshal := by
  unfold runFixtureCase FixtureTest.verdicts FixtureTest.searches
  dsimp only
  have hchecks := fun s => @sweep_map _ _ _ _ (runCheck engine marshal tc) (fun _ => True) (List.map Report.verdict) _
    (fun c s _ => runCheck_verdicts c s) (fun _ _ _ => trivial) tc.check s trivial
  have hsearches := fun ls s => @sweep_map _ _ _ _ (runSearch engine marshal tc) (fun _ => True)
    (List.map Report.verdict) _ (fun l s _ => runSearch_verdicts l s) (fun _ _ _ => trivial) ls s trivial
  have hactions := fun s hs => @sweep_map _ _ _ _ (runActions engine marshal tc) (Loaded engine) Report.verdict _
    (fun a s hs => (runActions_spec a hs).1) (fun a s hs => (runActions_spec a hs).2) tc.listActions s hs
  have hexplain := fun s => @sweep_map _ _ _ _ (runExplain engine tc) (fun _ => True)
    (Report.verdict (C := C) (J := J)) _ (fun e s _ => runExplain_verdict e s) (fun _ _ _ => trivial)
    tc.explain s trivial
  rw [if_neg Bool.false_ne_true]
  simp only [List.map_append, List.map_flatten]
  rw [hchecks, hsearches, hsearches, hactions _ (fun perms h => absurd h (Option.not_mem_none perms)), hexplain]
  simp only [List.flatMap, List.map_append, List.flatten_append, List.append_assoc]

/-- **What a run reports of each assertion.** -/
theorem runTests_verdicts (tests : List (FixtureTest C)) :
    (runTests engine marshal tests false).1.map Report.verdict =
      tests.flatMap (FixtureTest.verdicts engine marshal) := by
  have hcases := @sweep_map _ _ _ _ (runFixtureCase engine marshal) (fun aborted => aborted = false)
    (List.map Report.verdict) (FixtureTest.verdicts engine marshal)
    (fun tc s hs => by rw [hs]; exact runFixtureCase_verdicts tc)
    (fun tc s hs => by rw [hs]; rfl) tests false rfl
  unfold runTests
  dsimp only
  rw [List.map_flatten, List.map_map, List.flatMap, ← hcases]
  -- the number of the test does not show in a verdict
  have hnumber : (List.map Report.verdict ∘ fun x : List (Report C J) × ℕ =>
      x.1.map fun r => { r with result := { r.result with test := x.2 } }) = List.map Report.verdict ∘ Prod.fst := by
    funext x
    rw [Function.comp_apply, List.map_map]
    rfl
  rw [hnumber, ← List.map_map, List.zipIdx_map_fst]

/-! ## Verdicts against what the assertions say -/

theorem sameSet_iff {got want : List String} : sameSet got want = true ↔ ∀ x, x ∈ got ↔ x ∈ want := by
  unfold sameSet
  rw [Bool.and_eq_true, decide_eq_true_iff, List.all_eq_true]
  simp only [List.mem_dedup, decide_eq_true_iff]
  constructor
  · rintro ⟨hlength, hsub⟩ x
    refine ⟨fun hx => ?_, fun hx => hsub x hx⟩
    have hsubset : want.dedup ⊆ got.dedup := fun y hy => List.mem_dedup.mpr (hsub y (List.mem_dedup.mp hy))
    have hperm := (List.subperm_of_subset (List.nodup_dedup want) hsubset).perm_of_length_le hlength.le
    exact List.mem_dedup.mp (hperm.mem_iff.mpr (List.mem_dedup.mpr hx))
  · intro h
    refine ⟨?_, fun x hx => (h x).mpr hx⟩
    have hperm : got.dedup.Perm want.dedup :=
      (List.perm_ext_iff_of_nodup (List.nodup_dedup _) (List.nodup_dedup _)).mpr fun x => by simp [h x]
    exact hperm.length_eq

variable {asked : Except String (SearchQuery J)} {shown : String → String} {want : List String}

/-- A search that is not rejected passes on the expected rows, with an error behind them or without. -/
theorem searchFails_eq_false_iff : searchFails engine asked false shown want = false ↔
    Finds engine asked shown want ∨ Loses engine asked shown want := by
  unfold searchFails Finds Loses
  cases asked with
  | error e => simp
  | ok q =>
    dsimp only [Server.query]
    rw [if_neg Bool.false_ne_true]
    cases hanswer : engine.search.answer q with
    | refused e => simp [Rows.read, hanswer]
    | delivered rows error =>
      have hsame := @sameSet_iff (rows.map shown) want
      cases error <;> simp [Rows.read, hanswer, hsame]

/-- A search that is rejected passes in silence only. -/
theorem searchFails_rejected_eq_false_iff : searchFails engine asked true shown want = false ↔
    ∃ q e, asked = .ok q ∧ engine.search.rejection q = .delivered [] (some e) ∧ want = [] := by
  unfold searchFails
  cases asked with
  | error e => simp
  | ok q =>
    dsimp only [Server.query]
    rw [if_pos rfl]
    rcases engine.search.rejects q with ⟨e, hrejection⟩ | ⟨e, hrejection⟩
    · simp [Rows.read, hrejection]
    · have hsame := @sameSet_iff [] want
      simp [Rows.read, hrejection, hsame, List.eq_nil_iff_forall_not_mem]

/-- A call that completes does not raise. -/
theorem not_loses_of_finds (h : Finds engine asked shown want) : ¬ Loses engine asked shown want := by
  rintro ⟨q', rows', e, hasked', hanswer', -⟩
  obtain ⟨q, rows, hasked, hanswer, -⟩ := h
  obtain rfl : q = q' := Except.ok.inj (hasked.symm.trans hasked')
  rw [hanswer] at hanswer'
  cases hanswer'

theorem CheckCase.fails_eq_false_iff {c : CheckCase C} {x : String × Bool} :
    c.fails engine marshal x = false ↔ (Assertion.check c x.1 x.2 : Assertion C J).Sound engine marshal := by
  change _ ↔ ∃ q, c.ask marshal x.1 = .ok q ∧ engine.check q = .ok x.2
  unfold CheckCase.fails
  cases c.ask marshal x.1 with
  | error e => simp
  | ok q => cases hcheck : engine.check q <;> simp [hcheck]

theorem ListActionsCase.fails_eq_false_iff {a : ListActionsCase C} : a.fails engine marshal = false ↔
    (∃ kinds, engine.kinds = .ok kinds) ∧
      (Finds engine (a.ask marshal) id a.expect ∨ Loses engine (a.ask marshal) id a.expect) := by
  unfold ListActionsCase.fails
  cases engine.kinds with
  | error e => simp
  | ok kinds => simp [searchFails_eq_false_iff]

theorem ExplainCase.fails_eq_false_iff {e : ExplainCase} : e.fails engine = false ↔
    ∃ q reasons, e.ask = .ok q ∧ engine.explain q = .ok reasons ∧ sprint reasons = sprint e.expectReasons := by
  unfold ExplainCase.fails
  cases e.ask with
  | error text => simp
  | ok q => cases hexplain : engine.explain q <;> simp [hexplain]

theorem Search.raises_eq_true_iff {l : Search C J} {x : String × List String} :
    l.raises engine marshal x = true ↔ l.Raises engine marshal x := by
  unfold Search.raises Search.Raises
  cases l.ask marshal x.1 <;> simp

/-! ### Undisturbed tests -/

theorem CheckCase.honest (c : CheckCase C) : ∀ v ∈ c.verdicts engine marshal, Honest engine marshal v := by
  intro v hv
  unfold CheckCase.verdicts at hv
  split at hv
  · obtain ⟨x, -, rfl⟩ := List.mem_map.mp hv
    exact CheckCase.fails_eq_false_iff
  · obtain rfl := List.mem_singleton.mp hv
    rfl

/-- The verdicts on a search are right if nothing disturbs it. -/
theorem Search.Undisturbed.honest {l : Search C J} (h : l.Undisturbed engine marshal) :
    ∀ v ∈ l.verdicts engine marshal, Honest engine marshal v := by
  intro v hv
  unfold Search.verdicts at hv
  split at hv
  · obtain ⟨y, hy, rfl⟩ := List.mem_map.mp hv
    change _ = false ↔ l.Sound engine marshal y
    cases hbefore : raisedBefore Prod.fst (l.raises engine marshal) l.assertions.rows y with
    | false =>
      rw [searchFails_eq_false_iff]
      exact or_iff_left (h.heard y hy)
    | true =>
      obtain ⟨x, hx, hlt, hraises⟩ := raisedBefore_iff.mp hbefore
      rw [searchFails_rejected_eq_false_iff]
      exact (h.apart x hx y hy hlt (Search.raises_eq_true_iff.mp hraises)).symm
  · obtain rfl := List.mem_singleton.mp hv
    rfl

/-- The verdicts on a test are right if nothing disturbs it. -/
theorem FixtureTest.Undisturbed.honest {t : FixtureTest C} (h : t.Undisturbed engine marshal) :
    ∀ v ∈ t.verdicts engine marshal, Honest engine marshal v := by
  intro v hv
  unfold FixtureTest.verdicts at hv
  simp only [List.mem_append, List.mem_flatMap, List.mem_map] at hv
  rcases hv with ((⟨c, -, hv⟩ | ⟨l, hl, hv⟩) | ⟨a, ha, rfl⟩) | ⟨e, he, rfl⟩
  · exact c.honest v hv
  · exact (h.searches l hl).honest v hv
  · obtain ⟨hfinds, hloses⟩ := h.actions a ha
    change _ = false ↔ Finds engine (a.ask marshal) id a.expect
    rw [ListActionsCase.fails_eq_false_iff]
    constructor
    · rintro ⟨⟨kinds, hkinds⟩, hfound | hlost⟩
      · exact hfound
      · obtain ⟨e, hkinds'⟩ := hloses hlost
        rw [hkinds] at hkinds'
        cases hkinds'
    · exact fun hfound => ⟨hfinds hfound, .inl hfound⟩
  · change _ = false ↔ ∃ q, e.ask = .ok q ∧ engine.explain q = .ok e.expectReasons
    rw [ExplainCase.fails_eq_false_iff]
    constructor
    · rintro ⟨q, reasons, hask, hexplain, hprint⟩
      obtain rfl := h.explain e he q reasons hask hexplain hprint
      exact ⟨q, hask, hexplain⟩
    · rintro ⟨q, hask, hexplain⟩
      exact ⟨q, _, hask, hexplain, rfl⟩

/-- Every sound assertion of a test has a verdict. -/
theorem FixtureTest.exists_verdict {t : FixtureTest C} {a : Assertion C J} (ha : a ∈ t.assertions)
    (hsound : a.Sound engine marshal) : ∃ failed, (some a, failed) ∈ t.verdicts engine marshal := by
  unfold FixtureTest.assertions at ha
  unfold FixtureTest.verdicts
  simp only [List.mem_append, List.mem_flatMap, List.mem_map] at ha ⊢
  rcases ha with ((⟨c, hc, x, hx, rfl⟩ | ⟨l, hl, x, hx, rfl⟩) | ⟨b, hb, rfl⟩) | ⟨e, he, rfl⟩
  · refine ⟨c.fails engine marshal x, .inl (.inl (.inl ⟨c, hc, ?_⟩))⟩
    obtain ⟨q, hask, -⟩ := hsound
    unfold CheckCase.ask at hask
    unfold CheckCase.verdicts
    cases hu : parseRef c.user with
    | error e => simp [hu] at hask
    | ok u =>
      cases ho : parseRef c.object with
      | error e => simp [hu, ho] at hask
      | ok o => exact List.mem_map.mpr ⟨x, hx, rfl⟩
  · refine ⟨searchFails engine (l.ask marshal x.1)
      (raisedBefore Prod.fst (l.raises engine marshal) l.assertions.rows x) l.shown x.2,
      .inl (.inl (.inr ⟨l, hl, ?_⟩))⟩
    obtain ⟨q, rows, hask, -⟩ := hsound
    unfold Search.ask at hask
    unfold Search.verdicts
    cases hentity : parseRef l.entity with
    | error e => simp [hentity] at hask
    | ok entity => exact List.mem_map.mpr ⟨x, hx, rfl⟩
  · exact ⟨_, .inl (.inr ⟨b, hb, rfl⟩)⟩
  · exact ⟨_, .inr ⟨e, he, rfl⟩⟩

/-! ## Reliable runs, test by test -/

/-- A search of a part of a test is a part of a search of the test. -/
theorem FixtureTest.Within.search {t' t : FixtureTest C} (h : t'.Within t) {l' : Search C J} (hl' : l' ∈ t'.searches) :
    ∃ l ∈ t.searches, l' = { l with assertions := l'.assertions } ∧ ∀ x ∈ l'.assertions, x ∈ l.assertions := by
  unfold FixtureTest.searches at hl' ⊢
  rw [h.name] at hl'
  rcases List.mem_append.mp hl' with hl' | hl'
  · obtain ⟨c', hc', rfl⟩ := List.mem_map.mp hl'
    obtain ⟨c, hc, heq, hsub⟩ := h.listObjects c' hc'
    refine ⟨c.search t.name, List.mem_append_left _ (List.mem_map_of_mem hc), ?_, hsub⟩
    rw [heq]
    rfl
  · obtain ⟨c', hc', rfl⟩ := List.mem_map.mp hl'
    obtain ⟨c, hc, heq, hsub⟩ := h.listSubjects c' hc'
    refine ⟨c.search t.name, List.mem_append_right _ (List.mem_map_of_mem hc), ?_, hsub⟩
    rw [heq]
    rfl

/-- A part of a search is not disturbed if the search is not. -/
theorem Search.Undisturbed.part {l : Search C J} (h : l.Undisturbed engine marshal)
    {table : Keyed.Table (@Prod.fst String (List String))} (hsub : ∀ x ∈ table, x ∈ l.assertions) :
    ({ l with assertions := table } : Search C J).Undisturbed engine marshal where
  heard x hx := h.heard x (hsub x hx)
  apart x hx y hy := h.apart x (hsub x hx) y (hsub y hy)

/-- A part of a test is not disturbed if the test is not. -/
theorem FixtureTest.Undisturbed.within {t' t : FixtureTest C} (h : t.Undisturbed engine marshal)
    (hwithin : t'.Within t) :
    t'.Undisturbed engine marshal where
  searches l' hl' := by
    obtain ⟨l, hl, heq, hsub⟩ := hwithin.search hl'
    rw [heq]
    exact (h.searches l hl).part hsub
  actions a ha := h.actions a (hwithin.listActions a ha)
  explain e he := h.explain e (hwithin.explain e he)

/-- The part of a test that has some assertions of one of its searches. -/
theorem exists_within_search {t : FixtureTest C} {l : Search C J} (hl : l ∈ t.searches)
    {table : Keyed.Table (@Prod.fst String (List String))} (hsub : ∀ x ∈ table, x ∈ l.assertions) :
    ∃ t' : FixtureTest C, t'.Within t ∧
      t'.verdicts engine marshal = ({ l with assertions := table } : Search C J).verdicts engine marshal := by
  rcases List.mem_append.mp hl with hl | hl
  · obtain ⟨c, hc, rfl⟩ := List.mem_map.mp hl
    refine ⟨⟨t.name, t.description, [], [{ c with assertions := table }], [], [], []⟩, ⟨rfl, nofun, ?_, nofun, nofun,
      nofun⟩, ?_⟩
    · intro c' hc'
      obtain rfl := List.mem_singleton.mp hc'
      exact ⟨c, hc, rfl, hsub⟩
    · simp only [FixtureTest.verdicts, FixtureTest.searches, List.flatMap_nil, List.map_nil, List.append_nil,
        List.nil_append, List.map_cons, List.flatMap_cons]
      rfl
  · obtain ⟨c, hc, rfl⟩ := List.mem_map.mp hl
    refine ⟨⟨t.name, t.description, [], [], [{ c with assertions := table }], [], []⟩, ⟨rfl, nofun, nofun, ?_, nofun,
      nofun⟩, ?_⟩
    · intro c' hc'
      obtain rfl := List.mem_singleton.mp hc'
      exact ⟨c, hc, rfl, hsub⟩
    · simp only [FixtureTest.verdicts, FixtureTest.searches, List.flatMap_nil, List.map_nil, List.append_nil,
        List.nil_append, List.map_cons, List.flatMap_cons]
      rfl

/-- The verdicts of a reliable run are right. -/
theorem Reliable.honest {tests : List (FixtureTest C)} (h : Reliable engine marshal tests) {t t' : FixtureTest C}
    (ht : t ∈ tests) (hwithin : t'.Within t) : ∀ v ∈ t'.verdicts engine marshal, Honest engine marshal v := by
  intro v hv
  have hrun : v ∈ (runTests engine marshal [t'] false).1.map Report.verdict := by
    rw [runTests_verdicts, List.flatMap_singleton]
    exact hv
  obtain ⟨r, hr, rfl⟩ := List.mem_map.mp hrun
  refine (h [t'] fun t'' ht'' => ⟨t, ht, ?_⟩).1 r hr
  rw [List.mem_singleton.mp ht'']
  exact hwithin

/-- The verdicts on a part of a search in a reliable run are right. -/
theorem Reliable.search_honest {tests : List (FixtureTest C)} (h : Reliable engine marshal tests) {t : FixtureTest C}
    (ht : t ∈ tests) {l : Search C J} (hl : l ∈ t.searches) {table : Keyed.Table (@Prod.fst String (List String))}
    (hsub : ∀ x ∈ table, x ∈ l.assertions) {x : String × List String} (hx : x ∈ table) {q : SearchQuery J}
    (hask : l.ask marshal x.1 = .ok q) :
    searchFails engine (l.ask marshal x.1) (raisedBefore Prod.fst (l.raises engine marshal) table.rows x) l.shown x.2 =
      false ↔ l.Sound engine marshal x := by
  obtain ⟨t', hwithin, hverdicts⟩ := @exists_within_search _ _ engine marshal _ _ hl _ hsub
  have hhonest := h.honest ht hwithin
  rw [hverdicts] at hhonest
  refine hhonest (some (.search { l with assertions := table } x.1 x.2), _) ?_
  unfold Search.ask at hask
  unfold Search.verdicts
  cases hentity : parseRef l.entity with
  | error e => simp [hentity] at hask
  | ok entity => exact List.mem_map.mpr ⟨x, hx, rfl⟩

/-- A search of a test that runs reliably is not disturbed. -/
theorem Reliable.search {tests : List (FixtureTest C)} (h : Reliable engine marshal tests) {t : FixtureTest C}
    (ht : t ∈ tests) {l : Search C J} (hl : l ∈ t.searches) : l.Undisturbed engine marshal where
  heard x hx hlost := by
    -- the assertion runs alone
    obtain ⟨q, -, -, hask, -⟩ := id hlost
    have hone : ∀ y ∈ (⟨[x], List.pairwise_singleton _ _⟩ : Keyed.Table (@Prod.fst String (List String))),
        y ∈ l.assertions :=
      fun y hy => by rwa [List.mem_singleton.mp hy]
    have hiff := h.search_honest ht hl hone List.mem_cons_self hask
    have hfirst : raisedBefore Prod.fst (l.raises engine marshal) [x] x = false := raisedBefore_first nofun
    rw [hfirst, searchFails_eq_false_iff] at hiff
    exact not_loses_of_finds (hiff.mp (.inr hlost)) hlost
  apart x hx y hy hlt hraises := by
    -- the two assertions run behind one another
    have htwo : ∀ z ∈ (⟨[x, y], List.pairwise_pair.mpr hlt⟩ : Keyed.Table (@Prod.fst String (List String))),
        z ∈ l.assertions := by
      intro z hz
      rcases List.mem_cons.mp hz with rfl | hz
      · exact hx
      · rwa [List.mem_singleton.mp hz]
    have hbefore : raisedBefore Prod.fst (l.raises engine marshal) [x, y] y = true :=
      raisedBefore_iff.mpr ⟨x, List.mem_cons_self, hlt, Search.raises_eq_true_iff.mpr hraises⟩
    have hpair : ∀ q, l.ask marshal y.1 = .ok q → (l.Silent engine marshal y ↔ l.Sound engine marshal y) := by
      intro q hask
      have hiff := h.search_honest ht hl htwo (List.mem_cons_of_mem _ List.mem_cons_self) hask
      rwa [hbefore, searchFails_rejected_eq_false_iff] at hiff
    constructor
    · rintro ⟨q, rows, hask, hrest⟩
      exact (hpair q hask).mpr ⟨q, rows, hask, hrest⟩
    · rintro ⟨q, e, hask, hrest⟩
      exact (hpair q hask).mp ⟨q, e, hask, hrest⟩

theorem FixtureTest.within_self (t : FixtureTest C) : t.Within t where
  name := rfl
  check c hc := ⟨c, hc, rfl, fun _ h => h⟩
  listObjects l hl := ⟨l, hl, rfl, fun _ h => h⟩
  listSubjects l hl := ⟨l, hl, rfl, fun _ h => h⟩
  listActions _ h := h
  explain _ h := h

/-- A test that runs reliably is not disturbed. -/
theorem Reliable.undisturbed {tests : List (FixtureTest C)} (h : Reliable engine marshal tests) {t : FixtureTest C}
    (ht : t ∈ tests) : t.Undisturbed engine marshal where
  searches l hl := h.search ht hl
  actions a ha := by
    have hiff := h.honest ht t.within_self (some (.listActions a), a.fails engine marshal)
      (List.mem_append_left _ (List.mem_append_right _ (List.mem_map.mpr ⟨a, ha, rfl⟩)))
    change _ = false ↔ Finds engine (a.ask marshal) id a.expect at hiff
    rw [ListActionsCase.fails_eq_false_iff] at hiff
    refine ⟨fun hfound => (hiff.mpr hfound).1, fun hlost => ?_⟩
    cases hkinds : engine.kinds with
    | error e => exact ⟨e, rfl⟩
    | ok kinds => exact absurd hlost (not_loses_of_finds (hiff.mp ⟨⟨kinds, hkinds⟩, .inr hlost⟩))
  explain e he q reasons hask hexplain hprint := by
    have hiff := h.honest ht t.within_self (some (.explain e), e.fails engine)
      (List.mem_append_right _ (List.mem_map.mpr ⟨e, he, rfl⟩))
    change _ = false ↔ ∃ q, e.ask = .ok q ∧ engine.explain q = .ok e.expectReasons at hiff
    rw [ExplainCase.fails_eq_false_iff] at hiff
    obtain ⟨q', hask', hexplain'⟩ := hiff.mp ⟨q, reasons, hask, hexplain, hprint⟩
    obtain rfl : q = q' := Except.ok.inj (hask.symm.trans hask')
    exact Except.ok.inj (hexplain.symm.trans hexplain')

end Verdicts

/-- **The runs of a fixture are reliable exactly if none of its tests is disturbed.** -/
theorem reliable_iff (engine : Engine J) (marshal : C → Option J) (tests : List (FixtureTest C)) :
    Reliable engine marshal tests ↔ ∀ t ∈ tests, t.Undisturbed engine marshal := by
  constructor
  · exact fun h t ht => h.undisturbed ht
  · intro h run hrun
    have hhonest : ∀ t' ∈ run, ∀ v ∈ t'.verdicts engine marshal, Honest engine marshal v := by
      intro t' ht'
      obtain ⟨t, ht, hwithin⟩ := hrun t' ht'
      exact ((h t ht).within hwithin).honest
    have hmem : ∀ v, v ∈ (runTests engine marshal run false).1.map Report.verdict ↔
        ∃ t' ∈ run, v ∈ t'.verdicts engine marshal := by
      intro v
      rw [runTests_verdicts, List.mem_flatMap]
    constructor
    · intro r hr
      obtain ⟨t', ht', hv⟩ := (hmem r.verdict).mp (List.mem_map_of_mem hr)
      exact hhonest t' ht' _ hv
    · intro t' ht' a ha hsound
      obtain ⟨failed, hv⟩ := FixtureTest.exists_verdict ha hsound
      obtain ⟨r, hr, hverdict⟩ := List.mem_map.mp ((hmem _).mpr ⟨t', ht', hv⟩)
      obtain ⟨hassertion, hfailed⟩ := Prod.mk.inj hverdict
      exact ⟨r, hr, hassertion, hfailed.trans ((hhonest t' ht' _ hv).mpr hsound)⟩

/-! ## A model that lacks the relation -/

/-- An engine that knows no relation, and raises when it is asked about one. -/
def unknownRelation : Engine Unit where
  check _ := .error "Unknown relation"
  search := ⟨fun _ => .delivered [] (some "Unknown relation"), fun _ => .refused abortedText, fun _ => .inl ⟨_, rfl⟩⟩
  explain _ := .error "Unknown relation"
  kinds := .ok []

/-- A search that expects nothing. -/
def expectsNothing : ListCase Unit :=
  ⟨"user:alice", "document", ⟨[("viewer", [])], List.pairwise_singleton _ _⟩, fun _ => "", "", none, []⟩

/-- A test with one search that expects nothing. -/
def emptySearch : FixtureTest Unit := ⟨"alice sees nothing", "", [], [expectsNothing], [], [], []⟩

/-- **A test that passes against a model that lacks the relation.** -/
theorem unknown_relation_passes :
    (runTests unknownRelation some [emptySearch] false).1.map (fun r => r.result.failed) = [false] ∧
    ¬ Reliable unknownRelation some [emptySearch] := by
  refine ⟨rfl, fun h => ?_⟩
  have hsearch := h.search List.mem_cons_self (l := expectsNothing.search "alice sees nothing") List.mem_cons_self
  exact hsearch.heard ("viewer", []) List.mem_cons_self ⟨_, [], _, rfl, rfl, fun _ => Iff.rfl⟩

end PgAuthz.Fixture
