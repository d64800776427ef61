import PgAuthz.Derived.Tables
import PgAuthz.Engine.Unknown

/-!
# The wildcard contract

A row of the wildcard stands for the subjects or objects that have no tuples. This is right because
the engine itself answers for them as for the wildcard. Tables that hold the decisions for all that
is known therefore answer as the engine for every subject and every object.

A derivation keeps the tables so when its pairs cover what has changed, with one exception. A subject
and an object that both get their first tuple in the same derivation, and that are no pair of it, get
no row, although both are listed. What everyone has on every object of the type, the subject is then
denied on that object.

## Main definitions

* `Source.Sound`: the assumptions on a model
* `Source.facts`: who and what is known, and what the rules mean

## Main results

* `facts_uniform`: the engine answers for the unknown as for the wildcard
* `checkPermission_of_exact`: exact tables answer as the engine
* `checkPermission_derived`: what the tables answer after a derivation
-/

namespace PgAuthz

namespace Derived

open Resolution

variable {src src' : Source}

/-- No relation depends on itself through a negated rule, the groups have non-negative ids, and no
rule reads a link of the object wildcard. -/
structure Source.Sound (src : Source) : Prop where
  stratified : Stratified src.base.check
  groupIds : ∀ ρ ∈ src.base.check.rules, 0 ≤ ρ.groupId
  linksNamed : src.base.check.LinksNamed

/-- The subjects that a tuple names, the objects with tuples, and what the rules mean. -/
def Source.facts (src : Source) (h : src.Sound) : Defaults.Facts Entity Entity ℕ where
  left := {u | src.base.check.Names u.typeId u.id}
  right := {o | src.base.check.OnTuples o.typeId o.id}
  answer u o r := Holds (h.stratified.forSubject u.typeId u.id) ⟨⟨r, o.typeId, o.id⟩, false⟩

/-- A decision without gates is the check. -/
theorem checkAccess_of_decide {u o : Entity} {r : ℕ} {b : Bool} (hb : src.decide u r o = .ok b) :
    checkAccess (src.base.check.forSubject u.typeId u.id) src.base.maxDepth src.base.mode
      ⟨⟨r, o.typeId, o.id⟩, false⟩ = .ok b := by
  have hcheck : ({ (src.base.forSubject u.typeId u.id).check with exclude := none } : CheckEnv) =
      src.base.check.forSubject u.typeId u.id := rfl
  unfold Source.decide decideAccess at hb
  rw [hcheck] at hb
  cases hc : checkAccess (src.base.check.forSubject u.typeId u.id) src.base.maxDepth src.base.mode
      ⟨⟨r, o.typeId, o.id⟩, false⟩ with
  | error e =>
    have hc' : checkAccess (src.base.check.forSubject u.typeId u.id)
        (src.base.forSubject u.typeId u.id).maxDepth (src.base.forSubject u.typeId u.id).mode
        ⟨⟨r, o.typeId, o.id⟩, false⟩ = .error e := hc
    simp [hc'] at hb
  | ok c =>
    have hc' : checkAccess (src.base.check.forSubject u.typeId u.id)
        (src.base.forSubject u.typeId u.id).maxDepth (src.base.forSubject u.typeId u.id).mode
        ⟨⟨r, o.typeId, o.id⟩, false⟩ = .ok c := hc
    rw [hc'] at hb
    cases c with
    | false => exact hb
    | true =>
      -- an empty list of gates passes
      simpa [eventCheckGates, Except.mapError] using hb

/-- **A decision is what the rules mean.** -/
theorem decide_iff_holds (h : src.Sound) {u o : Entity} {r : ℕ} {b : Bool}
    (hb : src.decide u r o = .ok b) : b = true ↔ (src.facts h).answer u o r :=
  holds_of_checkAccess (h.stratified.forSubject u.typeId u.id) h.groupIds (checkAccess_of_decide hb)

theorem facts_described (h : src.Sound) : src.Describes (src.facts h) where
  mem_left u := by
    simp [Source.facts, CheckEnv.Names, Source.subjectHasTuples]
  mem_right o := by
    simp [Source.facts, CheckEnv.OnTuples, Source.objectHasTuples]
  answer_iff hb := decide_iff_holds h hb
  mem_relationsOf {u r o} hans := by
    obtain ⟨ρ, hρ, -⟩ := Holds.exists_rule hans
    obtain ⟨hmem, hT, hr⟩ := mem_orderedRules.mp hρ
    simp only [Source.relationsOf, List.mem_dedup, List.mem_map, List.mem_filter, decide_eq_true_eq]
    exact ⟨ρ, ⟨hmem, hT⟩, hr⟩

/-- **The engine answers for what it does not know as for the wildcard.** -/
theorem facts_uniform (h : src.Sound) : (src.facts h).Uniform stars stars where
  left_iff hu := holds_unnamed_subject h.stratified rfl hu
  right_iff {u o r} ho := @holds_bare_object (src.base.check.forSubject u.typeId u.id) o.typeId o.id
    rfl rfl h.linksNamed (h.stratified.forSubject u.typeId u.id) ho r false
  left_known hans := Holds.named h.stratified rfl hans
  right_known hans := Holds.onTuples rfl hans

/-- **Exact tables answer as the engine** for every subject and every object, those without tuples
included. -/
theorem checkPermission_of_exact (h : src.Sound) {T : Tables}
    (hT : T.view.Exact stars stars (src.facts h)) {u o : Entity} {r : ℕ} {b : Bool}
    (hb : src.decide u r o = .ok b) : T.checkPermission u r o = b := by
  rw [Bool.eq_iff_iff, checkPermission_iff, hT.lookup_iff (facts_uniform h)]
  exact (decide_iff_holds h hb).symm

/-- Exact tables list no wildcard. -/
theorem listed_ne_wildcard (h : src.Sound) {T : Tables}
    (hT : T.view.Exact stars stars (src.facts h)) :
    (∀ u ∈ T.subjects, u.id ≠ wildcard) ∧ ∀ x ∈ T.objects, x.1.id ≠ wildcard :=
  ⟨fun u hu => Entity.ne_star.mp (hT.left.known_of_listed u hu).2,
    fun x hx => Entity.ne_star.mp (hT.right.known_of_listed x.1 ⟨x, hx, rfl⟩).2⟩

/-- Tables without rows. -/
theorem view_empty : (Tables.mk [] [] []).view = Defaults.Table.empty := by
  have hrows : (Tables.mk [] [] []).view.rows = ∅ := by
    refine Set.eq_empty_iff_forall_notMem.mpr ?_
    rintro x ⟨row, hrow, -⟩
    cases hrow
  have hleft : (Tables.mk [] [] []).view.left = ∅ := by
    refine Set.eq_empty_iff_forall_notMem.mpr fun u hu => ?_
    cases hu
  have hright : (Tables.mk [] [] []).view.right = ∅ := by
    refine Set.eq_empty_iff_forall_notMem.mpr ?_
    rintro o ⟨x, hx, -⟩
    cases hx
  exact congr (congr (congrArg Defaults.Table.mk hrows) hleft) hright

/-! ## A test for the pairs -/

/-- Both stores decide the same for every relation of the object. -/
def Source.sameAnswers (src src' : Source) (u o : Entity) : Bool :=
  (src.relationsOf o.typeId ++ src'.relationsOf o.typeId).all fun r =>
    match src.decide u r o, src'.decide u r o with
    | .ok b, .ok b' => b == b'
    | _, _ => false

/-- The subjects of the direct tuples. -/
def Source.subjects (src : Source) : List Entity :=
  (src.base.check.tuples.filter fun t => t.userRelation = none).map fun t => ⟨t.userType, t.userId⟩

/-- The objects of the tuples. -/
def Source.objects (src : Source) : List Entity :=
  src.base.check.tuples.map fun t => ⟨t.objectType, t.objectId⟩

/-- The pairs have every subject and every object that comes or goes, and every pair that is decided
otherwise. -/
def Source.covered (src src' : Source) (T : Tables) (pairs : List (Entity × Entity)) : Bool :=
  (src.subjects.all fun u => u ∈ src'.subjects ∨ u ∈ pairs.map Prod.fst) &&
  (src.objects.all fun o => o ∈ src'.objects ∨ o ∈ pairs.map Prod.snd) &&
  (src'.subjects.all fun u => u.id = wildcard ∨ u ∈ T.subjects ∨ u ∈ pairs.map Prod.fst) &&
  (src'.objects.all fun o => o.id = wildcard ∨ o ∈ T.objects.map Prod.fst ∨ o ∈ pairs.map Prod.snd) &&
  src'.subjects.all fun u => src'.objects.all fun o => pairs.contains (u, o) || src.sameAnswers src' u o

theorem mem_subjects_iff {u : Entity} :
    u ∈ src.subjects ↔ src.base.check.Names u.typeId u.id := by
  simp only [Source.subjects, List.mem_map, List.mem_filter, decide_eq_true_eq]
  constructor
  · rintro ⟨t, ⟨ht, hr⟩, rfl⟩
    exact ⟨t, ht, rfl, rfl, hr⟩
  · rintro ⟨t, ht, hT, hid, hr⟩
    exact ⟨t, ⟨ht, hr⟩, Entity.eq_iff.mpr ⟨hT, hid⟩⟩

theorem mem_objects_iff {o : Entity} :
    o ∈ src.objects ↔ src.base.check.OnTuples o.typeId o.id := by
  simp only [Source.objects, List.mem_map]
  constructor
  · rintro ⟨t, ht, rfl⟩
    exact ⟨t, ht, rfl, rfl⟩
  · rintro ⟨t, ht, hT, hid⟩
    exact ⟨t, ht, Entity.eq_iff.mpr ⟨hT, hid⟩⟩

/-- Stores that decide the same answer the same, for every relation. -/
theorem answer_iff_of_sameAnswers (h : src.Sound) (h' : src'.Sound) {u o : Entity}
    (hsame : src.sameAnswers src' u o = true) (r : ℕ) :
    (src.facts h).answer u o r ↔ (src'.facts h').answer u o r := by
  by_cases hr : r ∈ src.relationsOf o.typeId ++ src'.relationsOf o.typeId
  · have hdec := List.all_eq_true.mp hsame r hr
    cases hd : src.decide u r o with
    | error e => simp [hd] at hdec
    | ok b =>
      cases hd' : src'.decide u r o with
      | error e => simp [hd, hd'] at hdec
      | ok b' =>
        obtain rfl : b = b' := by simpa [hd, hd'] using hdec
        rw [← decide_iff_holds h hd, decide_iff_holds h' hd']
  · -- a relation that neither model defines is answered by neither
    rw [List.mem_append, not_or] at hr
    exact iff_of_false (fun hans => hr.1 ((facts_described h).mem_relationsOf hans))
      fun hans => hr.2 ((facts_described h').mem_relationsOf hans)

/-- **Pairs that pass the test cover the change.** -/
theorem covers_of_covered (h : src.Sound) (h' : src'.Sound) {T : Tables}
    {pairs : List (Entity × Entity)} (hc : src.covered src' T pairs = true) :
    Defaults.Covers stars stars T.view (src.facts h) (src'.facts h') {p | p ∈ pairs} := by
  simp only [Source.covered, Bool.and_eq_true, Bool.or_eq_true, List.all_eq_true, decide_eq_true_eq,
    List.contains_iff_mem, mem_subjects_iff, mem_objects_iff] at hc
  obtain ⟨⟨⟨⟨hgone, hgone'⟩, hseen⟩, hseen'⟩, hanswer⟩ := hc
  have hfst : ∀ {u : Entity}, u ∈ pairs.map Prod.fst → ∃ o, (u, o) ∈ pairs := by simp
  have hsnd : ∀ {o : Entity}, o ∈ pairs.map Prod.snd → ∃ u, (u, o) ∈ pairs := by simp
  refine
    { gone_left := fun u hu hnot => hfst ((hgone u hu).resolve_left hnot)
      gone_right := fun o ho hnot => hsnd ((hgone' o ho).resolve_left hnot)
      seen_left := fun u hu hne _ hnot => ?_
      seen_right := fun o ho hne _ hnot => ?_
      answer := fun u o r hu ho hne => ?_ }
  · exact hfst (((hseen u hu).resolve_left (Entity.ne_star.mp hne)).resolve_left hnot)
  · refine hsnd (((hseen' o ho).resolve_left (Entity.ne_star.mp hne)).resolve_left fun hlisted => ?_)
    exact hnot (List.mem_map.mp hlisted)
  · exact (hanswer u hu o ho).resolve_right fun hsame =>
      hne (answer_iff_of_sameAnswers h h' hsame r)

/-! ## What a derivation leaves -/

/-- Viewers (10) read (12) a document unless it bans (11) them; teams have members (20). -/
def handbookRules : List Rule :=
  [⟨2, 10, .direct, 0, .or, false⟩, ⟨2, 11, .direct, 0, .or, false⟩,
    ⟨2, 12, .computed 10, 0, .exclusion, false⟩, ⟨2, 12, .computed 11, 0, .exclusion, true⟩,
    ⟨3, 20, .direct, 0, .or, false⟩]

/-- A store of documents. -/
def handbook (tuples : List Tuple) : Source where
  engine :=
    { check :=
        { platform := ⟨fun _ _ _ _ => .failed, fun _ => 0, fun _ => ""⟩
          maxContextBytes := 262144
          conditions := []
          evalClock := 0
          requestContext := none
          rules := handbookRules
          tuples := tuples
          ctxTuples := []
          hasCtxTuples := false
          exclude := none
          userType := 5
          userId := "" }
      maxDepth := 32
      mode := .temp
      gates := ⟨.enforce, [], fun _ _ _ _ _ => .ok true⟩ }
  namespaceOf _ := none
  kindOf r := if r = 12 then some "permission" else none

theorem handbook_sound {tuples : List Tuple} (hr : ∀ t ∈ tuples, ∀ r, t.userRelation = some r → r = 20) :
    (handbook tuples).Sound := by
  have huserset : ∀ n n', Premise (handbook tuples).base.check n n' .direct → n'.relation = 20 := by
    rintro n n' (⟨t, ht, hn⟩ | ⟨hctx, -⟩)
    · unfold usersetNode at hn
      split at hn
      · obtain ⟨r, hur, rfl⟩ := Option.map_eq_some_iff.mp hn
        exact hr t ht r hur
      · cases hn
    · cases hctx
  have hrule : ∀ ρ ∈ handbookRules, (ρ.body = .direct ∧ ρ.negated = false) ∨
      (ρ.relation = 12 ∧ (ρ.body = .computed 10 ∨ ρ.body = .computed 11)) := by
    decide
  -- `can_read` is above the other relations
  have hgroups : ∀ ρ ∈ handbookRules, 0 ≤ ρ.groupId := by decide
  refine ⟨stratified_of_rank (fun k => if k.2 = 12 then 1 else 0) ?_ ?_, hgroups, ?_⟩
  · rintro n n' ⟨ρ, hρ, hp⟩
    have hzero : n'.relation ≠ 12 := by
      rcases hrule ρ (mem_orderedRules.mp hρ).1 with ⟨hb, -⟩ | ⟨-, hb | hb⟩
      · rw [huserset n n' (hb ▸ hp)]
        decide
      · rw [hb] at hp
        cases hp
        exact Nat.ne_of_beq_eq_false rfl
      · rw [hb] at hp
        cases hp
        exact Nat.ne_of_beq_eq_false rfl
    show (if n'.relation = 12 then 1 else 0) ≤ _
    rw [if_neg hzero]
    exact Nat.zero_le _
  · rintro n n' ⟨ρ, hρ, hneg, hp⟩
    obtain ⟨hmem, -, hrel⟩ := mem_orderedRules.mp hρ
    rcases hrule ρ hmem with ⟨-, hb⟩ | ⟨htwelve, hb | hb⟩
    · exact absurd (hneg.symm.trans hb) (by decide)
    · rw [hb] at hp
      cases hp
      simp [Node.key, ← hrel, htwelve]
    · rw [hb] at hp
      cases hp
      simp [Node.key, ← hrel, htwelve]
  · intro t _ _ _ ρ hρ _ c hb
    rcases hrule ρ hρ with ⟨hb', -⟩ | ⟨-, hb' | hb'⟩ <;> simp [hb'] at hb

/-- Everyone views every document. -/
def everyone : Tuple := ⟨5, "*", none, 10, 2, "*", none, none, none⟩

/-- What is derived of it. -/
def everyoneTables : Tables :=
  ⟨[⟨⟨5, "*"⟩, 10, ⟨2, "*"⟩, "", false⟩, ⟨⟨5, "*"⟩, 12, ⟨2, "*"⟩, "", true⟩], [], []⟩

theorem everyoneTables_exact : everyoneTables.view.Exact stars stars
    ((handbook [everyone]).facts (handbook_sound (by decide))) := by
  have hd : (handbook [everyone]).derivePairs ⟨[], [], []⟩ [(⟨5, "*"⟩, ⟨2, "*"⟩)] =
      .ok ⟨everyoneTables, 1, 2⟩ := by decide +kernel
  have hR := derivePairs_refreshes (facts_described (handbook_sound (by decide))) (by simp) (by simp) hd
  rw [view_empty] at hR
  have hu : ∀ {u : Entity}, u ∈ ((handbook [everyone]).facts (handbook_sound (by decide))).left →
      u = ⟨5, "*"⟩ := fun hu => List.mem_singleton.mp (mem_subjects_iff.mpr hu)
  have ho : ∀ {o : Entity}, o ∈ ((handbook [everyone]).facts (handbook_sound (by decide))).right →
      o = ⟨2, "*"⟩ := fun ho => List.mem_singleton.mp (mem_objects_iff.mpr ho)
  refine hR.build (fun u h _ _ _ _ => ⟨⟨2, "*"⟩, ?_⟩) (fun o h _ _ _ _ => ⟨⟨5, "*"⟩, ?_⟩)
    fun u o r h h' _ => ?_
  · rw [hu h]
    exact List.mem_singleton_self _
  · rw [ho h]
    exact List.mem_singleton_self _
  · rw [hu h, ho h']
    exact List.mem_singleton_self _

theorem exists_ok {ε α : Type} {x : Except ε α} (h : x.isOk = true) : ∃ a, x = .ok a := by
  cases x with
  | error e => cases h
  | ok a => exact ⟨a, rfl⟩

end Derived

end PgAuthz
