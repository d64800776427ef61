import PgAuthz.Derived.Contract

/-!
# The snapshot of a store

A store is derived from the changes of its tuples. Each change gives pairs: the objects that reach
the object of the tuple through tuples, with the subjects that the tuple is for. For a userset and
for a link to an object these are the subjects that the engine lists for it, and if the listing
raises an error they are all known subjects. The snapshot of a store takes every tuple as a change.

These are all pairs that an answer needs. If a subject has a relation on an object with tuples, then
a tuple of this object names the subject or leads to a userset or an object whose listing has it. A
link to the wildcard of a type is followed from the object back, by the closure.

## Main definitions

* `Delta`: a change of a tuple
* `Source.subjectsOf`, `Source.closure`: the subjects and the objects that a change concerns
* `Source.blastRadius`: the pairs of a list of changes
* `Source.snapshotStore`: the snapshot

## Main results

* `reached_of_answer`: what a known subject is allowed on is reached from a tuple that concerns it
* `snapshot_exact`: the tables of a snapshot are exact
* `checkPermission_snapshot`: a snapshot answers as the engine
-/

namespace PgAuthz

namespace Derived

open Resolution
open Relation (ReflTransGen)

/-! ## Changes -/

/-- A row of `_mp_claimed`: a change of a tuple, or an object as a whole, without a subject. -/
structure Delta where
  object : Entity
  relation : Option ℕ
  user : Option Entity
  userRelation : Option ℕ
deriving DecidableEq, Repr

/-- The subject of a tuple. -/
def subjectOf (t : Tuple) : Entity := ⟨t.userType, t.userId⟩

/-- The object of a tuple. -/
def objectOf (t : Tuple) : Entity := ⟨t.objectType, t.objectId⟩

/-- A tuple as a change. -/
def Delta.ofTuple (t : Tuple) : Delta :=
  ⟨objectOf t, some t.relation, some (subjectOf t), t.userRelation⟩

namespace Source

/-- The engine with the gates off. -/
def gatesOff (src : Source) : DecideEnv :=
  { src.base with gates := { src.base.gates with gatesMode := .off } }

/-- `_mp_known`: the subjects of the direct tuples, with the wildcards. -/
def known (src : Source) : List Entity := src.subjects.dedup

/-- The known subjects of a type. -/
def knownOf (src : Source) (userType : ℕ) : List Entity :=
  src.known.filter fun u => u.typeId = userType

/-- A principal: no relation is defined on the type, and no tuple is on an object of the type. -/
def isPrincipal (src : Source) (userType : ℕ) : Bool :=
  src.relationsOf userType = [] ∧ ∀ t ∈ src.base.check.tuples, t.objectType ≠ userType

/-- `_mp_subject_types`: the types of the direct subjects. -/
def subjectTypes (src : Source) : List ℕ := (src.known.map Entity.typeId).dedup

/-- Everyone of a type who has the relation on the object, by the listing of the engine. The
listing is an optimisation: if it raises, all known subjects of the type are taken, unless the
statement was cancelled. -/
def holders (src : Source) (mayRead : ℕ → Bool) (relation : ℕ) (e : Entity) (userType : ℕ) :
    Except (Halt EngineError) (List Entity) :=
  if mayRead e.typeId then
    match PgAuthz.listSubjects src.gatesOff userType ⟨⟨relation, e.typeId, e.id⟩, false⟩ none 0 none with
    | .error (.raised .queryCanceled) => .error (.raised .queryCanceled)
    | .error _ => .ok (src.knownOf userType)
    | .ok rows => .ok (rows.flatMap fun row =>
        if row.2 then ⟨userType, wildcard⟩ :: src.knownOf userType else [⟨userType, row.1⟩])
  else .ok (src.knownOf userType)

/-- The relations that a reference is expanded over: that of a userset, or all relations of the type
of a linked object. -/
def referenceRelations (src : Source) (e : Entity) : Option ℕ → List ℕ
  | some r => [r]
  | none => src.relationsOf e.typeId

/-- `_mp_expanded`: the members of a userset, or the holders of a relation on a linked object. -/
def expansion (src : Source) (mayRead : ℕ → Bool) (e : Entity) (userRelation : Option ℕ) :
    Except (Halt EngineError) (List Entity) :=
  if e.id ≠ wildcard ∧ (userRelation ≠ none ∨ src.isPrincipal e.typeId = false) then
    gather (fun r => gather (fun T => src.holders mayRead r e T) src.subjectTypes)
      (src.referenceRelations e userRelation)
  else .ok []

/-- The subjects that a change concerns. -/
def subjectsOf (src : Source) (mayRead : ℕ → Bool) (c : Delta) :
    Except (Halt EngineError) (List Entity) :=
  match c.user with
  | none => .ok src.known
  | some e =>
    let direct := if c.userRelation = none then [e] else []
    let everyone := if c.userRelation = none ∧ e.id = wildcard then src.knownOf e.typeId else []
    (src.expansion mayRead e c.userRelation).map fun us => direct ++ everyone ++ us

/-- The objects a change starts from: its own, and for the wildcard every object of the type. -/
def seeds (src : Source) (c : Delta) : List Entity :=
  c.object :: if c.object.id = wildcard then
    (src.base.check.tuples.filter fun t => t.objectType = c.object.typeId).map objectOf else []

/-- The objects whose tuples have the object as their subject, the changed tuples included: a
deleted tuple is what a withdrawn permission came through. -/
def referrers (src : Source) (claimed : List Delta) (e : Entity) : List Entity :=
  (src.base.check.tuples.filter fun t => subjectOf t = e).map objectOf ++
    (claimed.filter fun c => c.user = some e).map Delta.object

/-- `_mp_closure`: the objects that reach the object of a change; the walk ends after at most as many
rounds as there are objects. -/
def closure (src : Source) (claimed : List Delta) (c : Delta) : List Entity :=
  recursiveUnion (src.referrers claimed)
    (src.base.check.tuples.map objectOf ++ claimed.map Delta.object).length
    (src.seeds c).dedup (src.seeds c).dedup

/-- The subjects of a change with the objects of its closure. -/
def pairsOf (src : Source) (mayRead : ℕ → Bool) (claimed : List Delta) (c : Delta) :
    Except (Halt EngineError) (List (Entity × Entity)) :=
  (src.subjectsOf mayRead c).map fun us =>
    us.flatMap fun u => (src.closure claimed c).map fun o => (u, o)

/-- `_mp_blast_radius`: the pairs of all changes. -/
def blastRadius (src : Source) (mayRead : ℕ → Bool) (claimed : List Delta) :
    Except (Halt EngineError) (List (Entity × Entity)) :=
  (gather (src.pairsOf mayRead claimed) claimed).map List.dedup

end Source

/-! ## The snapshot -/

/-- A row of `materialized_refresh_queue` that is due when a tuple expires. -/
structure Deferred where
  delta : Delta
  dueAt : ℤ
deriving DecidableEq, Repr

/-- The row of `materialized_refresh_state`. -/
structure RefreshState where
  storeId : ℕ
  cursorAt : ℤ
  cursorSeq : ℤ
  asOf : ℤ
  feedDrained : Bool
  lastRunPairs : ℕ
  lastRunRowsWritten : ℕ
deriving DecidableEq, Repr

/-- What is derived of a store. -/
structure Copy where
  tables : Tables
  queue : List Deferred
  state : Option RefreshState
deriving DecidableEq, Repr

/-- `check_permission`: a store without a registration answers false. -/
def Copy.checkPermission (copy : Copy) (u : Entity) (permission : ℕ) (o : Entity) : Bool :=
  copy.state.isSome && copy.tables.checkPermission u permission o

/-- `_mp_snapshot_store`: the pairs of all tuples are derived into empty tables, and each tuple that
expires is filed for its expiry. -/
def Source.snapshotStore (src : Source) (mayRead : ℕ → Bool) (storeId : ℕ) (cursorAt : ℤ) :
    Except (Halt EngineError) Copy :=
  match src.blastRadius mayRead (src.base.check.tuples.map Delta.ofTuple) with
  | .error e => .error e
  | .ok pairs => (src.derivePairs ⟨[], [], []⟩ pairs).map fun d =>
    { tables := d.tables
      queue := src.base.check.tuples.filterMap fun t => t.expiresAt.map fun at' => ⟨.ofTuple t, at'⟩
      state := some ⟨storeId, cursorAt, 0, cursorAt, true, d.pairs, d.rowsWritten⟩ }

/-! ## The subjects of a tuple -/

/-- No userset is stored on the wildcard of a type. -/
def UsersetsNamed (env : CheckEnv) : Prop :=
  ∀ t ∈ env.tuples, t.userId = wildcard → t.userRelation = none

variable {src : Source} {mayRead : ℕ → Bool}

theorem mem_known {u : Entity} : u ∈ src.known ↔ src.base.check.Names u.typeId u.id := by
  rw [Source.known, List.mem_dedup, mem_subjects_iff]

theorem mem_knownOf {u : Entity} (hu : src.base.check.Names u.typeId u.id) :
    u ∈ src.knownOf u.typeId :=
  List.mem_filter.mpr ⟨mem_known.mpr hu, by simp⟩

/-- **The holders of a relation hold every known subject who has it**, whether the listing returns
or raises. -/
theorem mem_holders (h : src.Sound) {u e : Entity} (hu : src.base.check.Names u.typeId u.id) {r : ℕ}
    {us : List Entity} (hus : src.holders mayRead r e u.typeId = .ok us)
    (hans : (src.facts h).answer u e r) : u ∈ us := by
  unfold Source.holders at hus
  split at hus
  · split at hus
    · cases hus
    · cases hus
      exact mem_knownOf hu
    · rename_i rows hrows
      cases hus
      have hlisted := listed_of_holds src.gatesOff h.stratified h.groupIds rfl hrows hans
      rcases hlisted with hrow | hrow
      · refine List.mem_flatMap.mpr ⟨_, hrow, ?_⟩
        by_cases hstar : u.id = wildcard
        · rw [if_pos (by simpa using hstar)]
          exact List.mem_cons_of_mem _ (mem_knownOf hu)
        · rw [if_neg (by simpa using hstar)]
          exact List.mem_singleton.mpr rfl
      · exact List.mem_flatMap.mpr ⟨_, hrow, List.mem_cons_of_mem _ (mem_knownOf hu)⟩
  · cases hus
    exact mem_knownOf hu

/-- The change of the tuple concerns the subject. -/
def Concerns (src : Source) (mayRead : ℕ → Bool) (t : Tuple) (u : Entity) : Prop :=
  ∃ us, src.subjectsOf mayRead (.ofTuple t) = .ok us ∧ u ∈ us

section Concerned

variable {t : Tuple} {u : Entity} {us : List Entity}

/-- The subjects of a tuple: its own, everyone for the wildcard, and those of what it refers to. -/
theorem mem_subjectsOf (hus : src.subjectsOf mayRead (.ofTuple t) = .ok us) :
    ∃ es, src.expansion mayRead (subjectOf t) t.userRelation = .ok es ∧
      ∀ u, u ∈ us ↔ (t.userRelation = none ∧ u = subjectOf t) ∨
        (t.userRelation = none ∧ t.userId = wildcard ∧ u ∈ src.knownOf t.userType) ∨ u ∈ es := by
  have hdef : src.subjectsOf mayRead (.ofTuple t) =
      (src.expansion mayRead (subjectOf t) t.userRelation).map fun us =>
        (if t.userRelation = none then [subjectOf t] else []) ++
          (if t.userRelation = none ∧ (subjectOf t).id = wildcard then
            src.knownOf (subjectOf t).typeId else []) ++ us := rfl
  rw [hdef] at hus
  cases hes : src.expansion mayRead (subjectOf t) t.userRelation with
  | error e => simp [hes, Except.map] at hus
  | ok es =>
    rw [hes] at hus
    cases hus
    refine ⟨es, rfl, fun u => ?_⟩
    by_cases hr : t.userRelation = none
    · by_cases hid : t.userId = wildcard <;> simp [hr, hid, subjectOf]
    · simp [hr]

/-- A direct tuple of a known subject, or of the wildcard of its type, concerns the subject. -/
theorem concerns_of_grant (hus : src.subjectsOf mayRead (.ofTuple t) = .ok us)
    (hu : src.base.check.Names u.typeId u.id) (hT : t.userType = u.typeId)
    (hid : t.userId = u.id ∨ t.userId = wildcard) (hr : t.userRelation = none) :
    Concerns src mayRead t u := by
  obtain ⟨es, -, hmem⟩ := mem_subjectsOf hus
  refine ⟨us, hus, (hmem u).mpr ?_⟩
  rcases hid with hid | hid
  · exact .inl ⟨hr, Entity.eq_iff.mpr ⟨hT.symm, hid.symm⟩⟩
  · exact .inr (.inl ⟨hr, hid, hT ▸ mem_knownOf hu⟩)

/-- A tuple with a userset, or with a link to an object, concerns every known subject who has the
relation there. -/
theorem concerns_of_reference (h : src.Sound)
    (hus : src.subjectsOf mayRead (.ofTuple t) = .ok us)
    (hu : src.base.check.Names u.typeId u.id) (hid : t.userId ≠ wildcard) {r : ℕ}
    (hr : t.userRelation = some r ∨ t.userRelation = none)
    (hans : (src.facts h).answer u (subjectOf t) r) : Concerns src mayRead t u := by
  obtain ⟨es, hes, hmem⟩ := mem_subjectsOf hus
  refine ⟨us, hus, (hmem u).mpr (.inr (.inr ?_))⟩
  have hrel : r ∈ src.relationsOf t.userType := (facts_described h).mem_relationsOf hans
  have hreference : r ∈ src.referenceRelations (subjectOf t) t.userRelation := by
    rcases hr with hr | hr
    · rw [hr]
      exact List.mem_singleton.mpr rfl
    · rw [hr]
      exact hrel
  have hprincipal : src.isPrincipal t.userType = false := by
    rw [Bool.eq_false_iff]
    intro hp
    have hnil := (of_decide_eq_true hp).1
    rw [hnil] at hrel
    cases hrel
  have htype : u.typeId ∈ src.subjectTypes :=
    List.mem_dedup.mpr (List.mem_map.mpr ⟨u, mem_known.mpr hu, rfl⟩)
  unfold Source.expansion at hes
  rw [if_pos ⟨hid, .inr hprincipal⟩] at hes
  obtain ⟨hall, hes⟩ := gather_ok hes
  obtain ⟨vs, hvs⟩ := hall r hreference
  obtain ⟨hall', hvs'⟩ := gather_ok hvs
  obtain ⟨ws, hws⟩ := hall' u.typeId htype
  exact (hes u).mpr ⟨r, hreference, vs, hvs, (hvs' u).mpr ⟨u.typeId, htype, ws, hws,
    mem_holders h hu hws hans⟩⟩

end Concerned

/-! ## The objects of a tuple -/

theorem mem_closure {claimed : List Delta} {c : Delta} (hc : c ∈ claimed) {o : Entity} :
    o ∈ src.closure claimed c ↔
      ∃ s ∈ src.seeds c, ReflTransGen (fun a b => b ∈ src.referrers claimed a) s o := by
  set objects := src.base.check.tuples.map objectOf ++ claimed.map Delta.object with hobjects
  refine mem_recursiveUnion (U := objects.toFinset) ?_ ?_ (List.toFinset_card_le _)
  · intro a _ b hb
    rw [List.mem_toFinset, hobjects, List.mem_append]
    rcases List.mem_append.mp hb with hb | hb
    · obtain ⟨t, ht, rfl⟩ := List.mem_map.mp hb
      exact .inl (List.mem_map.mpr ⟨t, List.mem_of_mem_filter ht, rfl⟩)
    · obtain ⟨d, hd, rfl⟩ := List.mem_map.mp hb
      exact .inr (List.mem_map.mpr ⟨d, List.mem_of_mem_filter hd, rfl⟩)
  · intro s hs
    rw [List.mem_toFinset, hobjects, List.mem_append]
    rcases List.mem_cons.mp hs with rfl | hs
    · exact .inr (List.mem_map.mpr ⟨c, hc, rfl⟩)
    · split at hs
      · obtain ⟨t, ht, rfl⟩ := List.mem_map.mp hs
        exact .inl (List.mem_map.mpr ⟨t, List.mem_of_mem_filter ht, rfl⟩)
      · cases hs

theorem mem_referrers {claimed : List Delta} {t : Tuple} (ht : t ∈ src.base.check.tuples) :
    objectOf t ∈ src.referrers claimed (subjectOf t) :=
  List.mem_append_left _ (List.mem_map.mpr ⟨t, List.mem_filter.mpr ⟨ht, by simp⟩, rfl⟩)

/-- A tuple that concerns the subject is on the object of the node or on the wildcard of its type, or
the object, which is no wildcard, is reached from its own. -/
def Reached (src : Source) (mayRead : ℕ → Bool) (claimed : List Delta) (u : Entity) (n : Node) :
    Prop :=
  (∃ t ∈ src.base.check.tuples, Concerns src mayRead t u ∧ t.objectType = n.objectType ∧
    (t.objectId = n.objectId ∨ t.objectId = wildcard)) ∨
  (n.objectId ≠ wildcard ∧ ∃ t ∈ src.base.check.tuples, Concerns src mayRead t u ∧
    ReflTransGen (fun a b => b ∈ src.referrers claimed a) (objectOf t) ⟨n.objectType, n.objectId⟩)

/-- The object of a link to a wildcard is reached when the wildcard is. -/
theorem Reached.link {claimed : List Delta} {u : Entity} {n : Node} {t : Tuple} {r : ℕ}
    (ht : t ∈ src.base.check.tuples) (hid : t.userId = wildcard) (hne : n.objectId ≠ wildcard)
    (hobj : objectOf t = ⟨n.objectType, n.objectId⟩)
    (hr : Reached src mayRead claimed u ⟨r, t.userType, t.userId⟩) :
    Reached src mayRead claimed u n := by
  rcases hr with ⟨t', ht', hc, hT, ho⟩ | ⟨hstar, -⟩
  · have hobj' : objectOf t' = subjectOf t :=
      Entity.eq_iff.mpr ⟨hT, ho.elim id fun ho => ho.trans hid.symm⟩
    have hstep : objectOf t ∈ src.referrers claimed (subjectOf t) := mem_referrers ht
    rw [← hobj', hobj] at hstep
    exact .inr ⟨hne, t', ht', hc, .single hstep⟩
  · exact absurd hid hstar

theorem no_ctxTuples (src : Source) (u : Entity) :
    ¬ (src.base.check.forSubject u.typeId u.id).hasCtxTuples = true := by
  intro h
  cases h

section Reach

variable (h : src.Sound) (husersets : UsersetsNamed src.base.check) {claimed : List Delta}
  (hall : ∀ t ∈ src.base.check.tuples, ∃ us, src.subjectsOf mayRead (.ofTuple t) = .ok us)
  {u : Entity} (hu : src.base.check.Names u.typeId u.id)
include h husersets hall hu

/-- What a rule over reached questions concludes is reached. -/
theorem reached_of_ruleHolds {q : Question} (hassume : q.assume = false) {ρ : Rule}
    (hρ : ρ ∈ orderedRules src.base.check.rules q.node.objectType q.node.relation)
    (hrule : RuleHolds (src.base.check.forSubject u.typeId u.id)
      {r | (r.assume = false → Reached src mayRead claimed u r.node) ∧
        Holds (h.stratified.forSubject u.typeId u.id) r} q ρ.body) :
    Reached src mayRead claimed u q.node := by
  -- what a tuple refers to is asked under the switch of the question
  have hanswer : ∀ r T x, Holds (h.stratified.forSubject u.typeId u.id) ⟨⟨r, T, x⟩, q.assume⟩ →
      (src.facts h).answer u ⟨T, x⟩ r := by
    intro r T x hr
    rw [hassume] at hr
    exact hr
  cases hbody : ρ.body with
  | direct =>
    rw [hbody] at hrule
    rcases hrule with ⟨t, ht, -, hT, ho, hut, hid, hur, -⟩ | hctx | ⟨n', ⟨t, ht, hn, -⟩ | hctx, hn'⟩
    · obtain ⟨us, hus⟩ := hall t ht
      exact .inl ⟨t, ht, concerns_of_grant hus hu hut hid hur, hT, ho.imp_left And.left⟩
    · exact absurd hctx.1 (no_ctxTuples src u)
    · unfold usersetNode at hn
      split at hn
      · rename_i hrow
        obtain ⟨r, hr, rfl⟩ := Option.map_eq_some_iff.mp hn
        obtain ⟨us, hus⟩ := hall t ht
        have hid : t.userId ≠ wildcard := by
          intro hid
          rw [husersets t ht hid] at hr
          cases hr
        have hans : (src.facts h).answer u (subjectOf t) r := hanswer r t.userType t.userId hn'.2
        have ho : t.objectId = q.node.objectId ∨ t.objectId = wildcard := by simpa using hrow.2.1
        exact .inl ⟨t, ht, concerns_of_reference h hus hu hid (.inl hr) hans, hrow.1, ho⟩
      · cases hn
    · exact absurd hctx.1 (no_ctxTuples src u)
  | computed r =>
    rw [hbody] at hrule
    exact hrule.1 hassume
  | ttu ts c =>
    rw [hbody] at hrule
    obtain ⟨n', ⟨t, ht, hn, -⟩ | hctx, hn'⟩ := hrule
    · unfold linkNode at hn
      split at hn
      · rename_i hrow
        obtain ⟨hT, ho, hts, hur⟩ := hrow
        obtain rfl := Option.some.inj hn
        by_cases hid : t.userId = wildcard
        · obtain ⟨hmem, htype, -⟩ := mem_orderedRules.mp hρ
          have hne : q.node.objectId ≠ wildcard := fun hstar =>
            h.linksNamed t ht (ho.trans hstar) hur ρ hmem (htype.trans hT.symm) c (hts ▸ hbody)
          exact .link ht hid hne (Entity.eq_iff.mpr ⟨hT, ho⟩) (hn'.1 hassume)
        · obtain ⟨us, hus⟩ := hall t ht
          have hans : (src.facts h).answer u (subjectOf t) c := hanswer c t.userType t.userId hn'.2
          exact .inl ⟨t, ht, concerns_of_reference h hus hu hid (.inr hur) hans, hT, .inl ho⟩
      · cases hn
    · exact absurd hctx.1 (no_ctxTuples src u)

/-- **Whatever a known subject is allowed on is reached** from a tuple that concerns the subject. -/
theorem reached_of_answer {o : Entity} {r : ℕ} (hans : (src.facts h).answer u o r) :
    Reached src mayRead claimed u ⟨r, o.typeId, o.id⟩ :=
  Holds.induction (h.stratified.forSubject u.typeId u.id)
    (P := fun q => q.assume = false → Reached src mayRead claimed u q.node)
    (fun _ _ hρ hrule hassume => reached_of_ruleHolds h husersets hall hu hassume hρ hrule) hans rfl

end Reach

/-! ## The tables of a snapshot -/

theorem mem_blastRadius {claimed : List Delta} {pairs : List (Entity × Entity)}
    (h : src.blastRadius mayRead claimed = .ok pairs) :
    (∀ c ∈ claimed, ∃ us, src.subjectsOf mayRead c = .ok us) ∧
      ∀ u o, (u, o) ∈ pairs ↔ ∃ c ∈ claimed, ∃ us, src.subjectsOf mayRead c = .ok us ∧ u ∈ us ∧
        o ∈ src.closure claimed c := by
  unfold Source.blastRadius at h
  cases hg : gather (src.pairsOf mayRead claimed) claimed with
  | error e => simp [hg, Except.map] at h
  | ok all =>
    obtain ⟨hall, hmem⟩ := gather_ok hg
    obtain rfl : all.dedup = pairs := by simpa [hg, Except.map] using h
    have hsubjects : ∀ c ∈ claimed, ∃ us, src.subjectsOf mayRead c = .ok us := by
      intro c hc
      obtain ⟨cs, hcs⟩ := hall c hc
      unfold Source.pairsOf at hcs
      cases hs : src.subjectsOf mayRead c with
      | error e => simp [hs, Except.map] at hcs
      | ok us => exact ⟨us, rfl⟩
    refine ⟨hsubjects, fun u o => ?_⟩
    rw [List.mem_dedup, hmem]
    refine exists_congr fun c => and_congr_right fun hc => ?_
    obtain ⟨us, hus⟩ := hsubjects c hc
    simp [Source.pairsOf, hus, Except.map]

/-- A pair of a subject and an object that a tuple concerns. -/
theorem mem_pairs {pairs : List (Entity × Entity)}
    (hpairs : src.blastRadius mayRead (src.base.check.tuples.map .ofTuple) = .ok pairs) {t : Tuple}
    (ht : t ∈ src.base.check.tuples) {u : Entity} (hc : Concerns src mayRead t u) {o s : Entity}
    (hs : s ∈ src.seeds (.ofTuple t))
    (ho : ReflTransGen (fun a b => b ∈ src.referrers (src.base.check.tuples.map .ofTuple) a) s o) :
    (u, o) ∈ pairs := by
  obtain ⟨us, hus, hu⟩ := hc
  have hmem : Delta.ofTuple t ∈ src.base.check.tuples.map .ofTuple := List.mem_map.mpr ⟨t, ht, rfl⟩
  exact ((mem_blastRadius hpairs).2 u o).mpr
    ⟨.ofTuple t, hmem, us, hus, hu, (mem_closure hmem).mpr ⟨s, hs, ho⟩⟩

/-- A tuple on an object with tuples, or on the wildcard of its type, starts from the object. -/
theorem mem_seeds {t : Tuple} {o : Entity} (ho : src.base.check.OnTuples o.typeId o.id)
    (hT : t.objectType = o.typeId) (hid : t.objectId = o.id ∨ t.objectId = wildcard) :
    o ∈ src.seeds (.ofTuple t) := by
  rcases hid with hid | hid
  · exact List.mem_cons.mpr (.inl (Entity.eq_iff.mpr ⟨hT.symm, hid.symm⟩))
  · obtain ⟨t', ht', hT', hid'⟩ := ho
    refine List.mem_cons_of_mem _ ?_
    rw [if_pos (show (Delta.ofTuple t).object.id = wildcard from hid)]
    exact List.mem_map.mpr ⟨t', List.mem_filter.mpr ⟨ht', by simp [Delta.ofTuple, objectOf, hT, hT']⟩,
      Entity.eq_iff.mpr ⟨hT', hid'⟩⟩

/-- **The tables of a snapshot are exact**: they hold what every known subject is allowed on every
object with tuples. -/
theorem snapshot_exact (h : src.Sound) (husersets : UsersetsNamed src.base.check)
    {pairs : List (Entity × Entity)}
    (hpairs : src.blastRadius mayRead (src.base.check.tuples.map .ofTuple) = .ok pairs)
    {d : Derivation} (hd : src.derivePairs ⟨[], [], []⟩ pairs = .ok d) :
    d.tables.view.Exact stars stars (src.facts h) := by
  have hR := derivePairs_refreshes (facts_described h) (by simp) (by simp) hd
  rw [view_empty] at hR
  have hall : ∀ t ∈ src.base.check.tuples, ∃ us, src.subjectsOf mayRead (.ofTuple t) = .ok us :=
    fun t ht => (mem_blastRadius hpairs).1 _ (List.mem_map.mpr ⟨t, ht, rfl⟩)
  have hreached : ∀ {u o : Entity} {r : ℕ}, u ∈ (src.facts h).left → (src.facts h).answer u o r →
      Reached src mayRead (src.base.check.tuples.map .ofTuple) u ⟨r, o.typeId, o.id⟩ :=
    fun hu hans => reached_of_answer h husersets hall hu hans
  refine hR.build (fun u hu _ _ _ _ => ?_) (fun o ho u hu r hans => ?_) fun u o r hu ho hans => ?_
  · -- a known subject is a pair with the object of its own tuple
    obtain ⟨t, ht, hT, hid, hur⟩ := hu
    obtain ⟨us, hus⟩ := hall t ht
    exact ⟨objectOf t, mem_pairs hpairs ht (concerns_of_grant hus ⟨t, ht, hT, hid, hur⟩ hT (.inl hid)
      hur) List.mem_cons_self .refl⟩
  · -- what is allowed on the wildcard comes from a tuple of the wildcard, which starts everywhere
    rcases hreached hu hans with ⟨t, ht, hc, hT, hid⟩ | ⟨hne, -⟩
    · exact ⟨u, mem_pairs hpairs ht hc (mem_seeds ho hT (.inr (hid.elim id id))) .refl⟩
    · exact absurd rfl hne
  · rcases hreached hu hans with ⟨t, ht, hc, hT, hid⟩ | ⟨-, t, ht, hc, hreach⟩
    · exact mem_pairs hpairs ht hc (mem_seeds ho hT hid) .refl
    · exact mem_pairs hpairs ht hc List.mem_cons_self hreach

end Derived

end PgAuthz
