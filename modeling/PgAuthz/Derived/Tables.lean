import PgAuthz.Engine.ListSubjects
import PgAuthz.Keyed.Defaults

/-!
# The derived tables

A store can be derived into three flat tables, which other databases subscribe to: who has which
relation on what, and which subjects and objects the engine knows. A row of the wildcard `*` counts
only for a subject or an object that is not known.

A derivation takes pairs of subjects and objects. It lists those that have tuples and delists the
others with their rows, adds the pairs of those that become known, and decides every pair anew. What
is no longer allowed is deleted, what is new is inserted.

The tables are those of one store, and the rows have the ids of types and relations, where the
tables have their names.

## Main definitions

* `Source`: what a derivation reads of a store
* `Tables.checkPermission`: the lookup of the subscriber
* `Source.derivePairs`: the derivation

## Main results

* `derivePairs_refreshes`: a derivation refreshes the tables over its pairs
-/

namespace PgAuthz

namespace Derived

open Resolution

/-! ## Loops that raise -/

/-- The results of a loop, up to its first error. -/
def gather {ε α β : Type} (f : α → Except ε (List β)) : List α → Except ε (List β)
  | [] => .ok []
  | a :: as =>
    match f a with
    | .error e => .error e
    | .ok bs => (gather f as).map (bs ++ ·)

/-- A loop that ends has run for each element, and it has the results of all. -/
theorem gather_ok {ε α β : Type} {f : α → Except ε (List β)} {as : List α} {bs : List β}
    (h : gather f as = .ok bs) : (∀ a ∈ as, ∃ cs, f a = .ok cs) ∧
      ∀ b, b ∈ bs ↔ ∃ a ∈ as, ∃ cs, f a = .ok cs ∧ b ∈ cs := by
  induction as generalizing bs with
  | nil =>
    cases h
    simp
  | cons a as ih =>
    rw [gather] at h
    cases ha : f a with
    | error e => simp [ha] at h
    | ok cs =>
      cases hrest : gather f as with
      | error e => simp [ha, hrest, Except.map] at h
      | ok rest =>
        obtain ⟨hall, hmem⟩ := ih hrest
        obtain rfl : cs ++ rest = bs := by simpa [ha, hrest, Except.map] using h
        refine ⟨fun a' ha' => ?_, fun b => ?_⟩
        · rcases List.mem_cons.mp ha' with rfl | ha'
          · exact ⟨cs, ha⟩
          · exact hall a' ha'
        · rw [List.mem_append, hmem]
          constructor
          · rintro (hb | ⟨a', ha', hb⟩)
            · exact ⟨a, List.mem_cons_self, cs, ha, hb⟩
            · exact ⟨a', List.mem_cons_of_mem a ha', hb⟩
          · rintro ⟨a', ha', cs', hf, hb⟩
            rcases List.mem_cons.mp ha' with rfl | ha'
            · rw [ha] at hf
              cases hf
              exact .inl hb
            · exact .inr ⟨a', ha', cs', hf, hb⟩

/-! ## The tables -/

/-- A subject or an object: its type and its id. -/
structure Entity where
  typeId : ℕ
  id : String
deriving DecidableEq, Repr

/-- The wildcard of the type. -/
def Entity.star (e : Entity) : Entity := ⟨e.typeId, wildcard⟩

/-- The wildcards are the defaults. -/
def stars : Defaults.Star Entity := ⟨Entity.star, fun _ => rfl⟩

/-- A row of `materialized_relations`. -/
structure RelationRow where
  user : Entity
  relation : ℕ
  object : Entity
  namespaceName : String
  isPermission : Bool
deriving DecidableEq, Repr

/-- The rows of `materialized_relations`, of `materialized_subjects`, and of `materialized_objects`
with the namespaces. -/
structure Tables where
  relations : List RelationRow
  subjects : List Entity
  objects : List (Entity × String)
deriving DecidableEq, Repr

/-- `check_permission` of a store that is registered. -/
def Tables.checkPermission (T : Tables) (u : Entity) (permission : ℕ) (o : Entity) : Bool :=
  T.relations.any fun row =>
    row.user.typeId = u.typeId ∧ row.relation = permission ∧ row.object.typeId = o.typeId ∧
      (row.user.id = u.id ∨ (row.user.id = wildcard ∧ u ∉ T.subjects)) ∧
      (row.object.id = o.id ∨ (row.object.id = wildcard ∧ ∀ x ∈ T.objects, x.1 ≠ o))

/-- What a derivation reads: the engine, the namespaces of the types and the kinds of the
relations. -/
structure Source where
  engine : DecideEnv
  namespaceOf : ℕ → Option String
  kindOf : ℕ → Option String

namespace Source

/-- The engine without a request context and without contextual tuples. -/
def base (src : Source) : DecideEnv :=
  { src.engine with
    check := { src.engine.check with
      requestContext := none
      ctxTuples := []
      hasCtxTuples := false
      exclude := none } }

/-- `_decide` with an empty list of gates. -/
def decide (src : Source) (u : Entity) (relation : ℕ) (o : Entity) :
    Except (Halt EngineError) Bool :=
  decideAccess (src.base.forSubject u.typeId u.id) (some []) ⟨⟨relation, o.typeId, o.id⟩, false⟩

/-- `has_tuples` of an object. -/
def objectHasTuples (src : Source) (o : Entity) : Bool :=
  src.base.check.tuples.any fun t => t.objectType = o.typeId ∧ t.objectId = o.id

/-- `has_tuples` of a subject. -/
def subjectHasTuples (src : Source) (u : Entity) : Bool :=
  src.base.check.tuples.any fun t =>
    t.userType = u.typeId ∧ t.userId = u.id ∧ t.userRelation = none

/-- The relations that the model defines on a type. -/
def relationsOf (src : Source) (objectType : ℕ) : List ℕ :=
  ((src.base.check.rules.filter fun ρ => ρ.objectType = objectType).map Rule.relation).dedup

/-- The namespace of an object, empty if its type has none. -/
def namespaceName (src : Source) (o : Entity) : String := (src.namespaceOf o.typeId).getD ""

/-- The row of a subject that has a relation on an object. -/
def row (src : Source) (u : Entity) (relation : ℕ) (o : Entity) : RelationRow :=
  ⟨u, relation, o, src.namespaceName o, (src.kindOf relation).getD "relation" == "permission"⟩

/-! ## The steps of a derivation -/

/-- A subject becomes known: the pairs with every object that has a row of the wildcard of its
type. -/
def subjectTransitions (src : Source) (T : Tables) (pairs : List (Entity × Entity)) :
    List (Entity × Entity) :=
  ((pairs.map Prod.fst).filter fun u =>
    src.subjectHasTuples u ∧ u.id ≠ wildcard ∧ u ∉ T.subjects).flatMap fun u =>
      (T.relations.filter fun row => row.user = u.star).map fun row => (u, row.object)

/-- An object becomes known: the pairs with every subject that has a row on the wildcard of its
type. -/
def objectTransitions (src : Source) (T : Tables) (pairs : List (Entity × Entity)) :
    List (Entity × Entity) :=
  ((pairs.map Prod.snd).filter fun o =>
    src.objectHasTuples o ∧ o.id ≠ wildcard ∧ ∀ x ∈ T.objects, x.1 ≠ o).flatMap fun o =>
      (T.relations.filter fun row => row.object = o.star).map fun row => (row.user, o)

/-- The pairs with the known-state transitions, which read the rows from before the derivation. -/
def withTransitions (src : Source) (T : Tables) (pairs : List (Entity × Entity)) :
    List (Entity × Entity) :=
  (pairs ++ src.subjectTransitions T pairs ++ src.objectTransitions T pairs).dedup

/-- The listed objects: those of the pairs without tuples or under another namespace go, those with
tuples come. -/
def listObjects (src : Source) (T : Tables) (objects : List Entity) : List (Entity × String) :=
  let kept := T.objects.filter fun x => ¬ (x.1 ∈ objects ∧
    (src.objectHasTuples x.1 = false ∨ x.2 ≠ src.namespaceName x.1))
  kept ++ ((objects.filter fun o => src.objectHasTuples o ∧ o.id ≠ wildcard).map fun o =>
    (o, src.namespaceName o)).filter fun x => x ∉ kept

/-- The listed subjects: those of the pairs without tuples go, those with tuples come. -/
def listSubjects (src : Source) (T : Tables) (subjects : List Entity) : List Entity :=
  let kept := T.subjects.filter fun u => ¬ (u ∈ subjects ∧ src.subjectHasTuples u = false)
  kept ++ (subjects.filter fun u => src.subjectHasTuples u ∧ u.id ≠ wildcard).filter fun u =>
    u ∉ kept

/-- The allowed rows of `_mp_want`. -/
def want (src : Source) (asked : List (Entity × ℕ × Entity)) :
    Except (Halt EngineError) (List RelationRow) :=
  gather (fun x => (src.decide x.1 x.2.1 x.2.2).map fun allowed =>
    if allowed then [src.row x.1 x.2.1 x.2.2] else []) asked

/-- Every pair with every relation of the type of its object. -/
def asked (src : Source) (pairs : List (Entity × Entity)) : List (Entity × ℕ × Entity) :=
  pairs.flatMap fun p => (src.relationsOf p.2.typeId).map fun r => (p.1, r, p.2)

end Source

/-- What a derivation leaves: the tables, the pairs it decided, and the rows it deleted and
inserted. -/
structure Derivation where
  tables : Tables
  pairs : ℕ
  rowsWritten : ℕ
deriving DecidableEq, Repr

namespace Source

/-- The pairs whose subject and object have tuples. -/
def knownPairs (src : Source) (all : List (Entity × Entity)) : List (Entity × Entity) :=
  all.filter fun p => src.objectHasTuples p.2 ∧ src.subjectHasTuples p.1

/-- The wanted rows of the pairs against the stored ones. -/
def diff (src : Source) (T : Tables) (all : List (Entity × Entity)) (wanted : List RelationRow) :
    Derivation :=
  let objects := (all.map Prod.snd).dedup
  let subjects := (all.map Prod.fst).dedup
  -- objects without tuples, and then subjects without tuples, lose all their rows
  let listed₁ := T.relations.filter fun row =>
    ¬ (row.object ∈ objects ∧ src.objectHasTuples row.object = false)
  let listed₂ := listed₁.filter fun row =>
    ¬ (row.user ∈ subjects ∧ src.subjectHasTuples row.user = false)
  -- a row under another namespace or of another kind is not wanted either
  let kept := listed₂.filter fun row =>
    ¬ ((row.user, row.object) ∈ src.knownPairs all ∧ row ∉ wanted)
  let inserted := wanted.filter fun row => row ∉ kept
  { tables := ⟨kept ++ inserted, src.listSubjects T subjects, src.listObjects T objects⟩
    pairs := (src.knownPairs all).length
    rowsWritten := (T.relations.length - listed₁.length) + (listed₁.length - listed₂.length) +
      (listed₂.length - kept.length) + inserted.length }

/-- `_derive_pairs`, for pairs of a subject and an object. -/
def derivePairs (src : Source) (T : Tables) (claimed : List (Entity × Entity)) :
    Except (Halt EngineError) Derivation :=
  let all := src.withTransitions T claimed
  (src.want (src.asked (src.knownPairs all))).map (src.diff T all)

end Source

/-! ## What a derivation refreshes -/

/-- The tables as a table with default rows, whatever the namespaces and kinds of its rows. -/
def Tables.view (T : Tables) : Defaults.Table Entity Entity ℕ where
  rows := {x | ∃ row ∈ T.relations, row.user = x.1 ∧ row.object = x.2.1 ∧ row.relation = x.2.2}
  left := {u | u ∈ T.subjects}
  right := {o | ∃ x ∈ T.objects, x.1 = o}

theorem Entity.eq_iff {e e' : Entity} : e = e' ↔ e.typeId = e'.typeId ∧ e.id = e'.id := by
  cases e
  cases e'
  simp

theorem Entity.ne_star {e : Entity} : e ≠ stars.of e ↔ e.id ≠ wildcard := by
  rw [ne_eq, Entity.eq_iff]
  simp [stars, Entity.star]

/-- The lookup of the subscriber is that of a table with default rows. -/
theorem checkPermission_iff {T : Tables} {u o : Entity} {r : ℕ} :
    T.checkPermission u r o = true ↔ T.view.lookup stars stars u o r := by
  have hkey : ∀ {e e' : Entity} {p : Prop}, (e.typeId = e'.typeId ∧
      (e.id = e'.id ∨ e.id = wildcard ∧ p)) ↔ e = e' ∨ e = stars.of e' ∧ p := by
    intro e e' p
    rw [Entity.eq_iff, @Entity.eq_iff e (stars.of e'), and_or_left, and_assoc]
    rfl
  have hunlisted : (∀ x ∈ T.objects, x.1 ≠ o) ↔ o ∉ T.view.right :=
    ⟨fun h ⟨x, hx, hxo⟩ => h x hx hxo, fun h x hx hxo => h ⟨x, hx, hxo⟩⟩
  simp only [Tables.checkPermission, List.any_eq_true, decide_eq_true_eq]
  constructor
  · rintro ⟨row, hrow, hut, hr, hot, hu, ho⟩
    exact ⟨row.user, hkey.mp ⟨hut, hu⟩, row.object, hkey.mp ⟨hot, ho.imp_right fun h =>
      ⟨h.1, hunlisted.mp h.2⟩⟩, row, hrow, rfl, rfl, hr⟩
  · rintro ⟨_, hu, _, ho, row, hrow, rfl, rfl, hr⟩
    obtain ⟨hut, hu⟩ := hkey.mpr hu
    obtain ⟨hot, ho⟩ := hkey.mpr ho
    exact ⟨row, hrow, hut, hr, hot, hu, ho.imp_right fun h => ⟨h.1, hunlisted.mpr h.2⟩⟩

/-- The facts are those that a derivation reads: who has tuples, and what is decided where the model
defines the relation. -/
structure Source.Describes (src : Source) (F : Defaults.Facts Entity Entity ℕ) : Prop where
  mem_left : ∀ u, u ∈ F.left ↔ src.subjectHasTuples u = true
  mem_right : ∀ o, o ∈ F.right ↔ src.objectHasTuples o = true
  answer_iff : ∀ {u r o b}, src.decide u r o = .ok b → (b = true ↔ F.answer u o r)
  mem_relationsOf : ∀ {u r o}, F.answer u o r → r ∈ src.relationsOf o.typeId

section Derive

variable {src : Source} {T : Tables} {claimed : List (Entity × Entity)}
  {F : Defaults.Facts Entity Entity ℕ}

/-- The wanted rows are those of the pairs that are allowed. -/
theorem want_iff (hF : src.Describes F) {pairs : List (Entity × Entity)} {rows : List RelationRow}
    (h : src.want (src.asked pairs) = .ok rows) {row : RelationRow} :
    row ∈ rows ↔ (row.user, row.object) ∈ pairs ∧ F.answer row.user row.object row.relation ∧
      row = src.row row.user row.relation row.object := by
  obtain ⟨hall, hmem⟩ := gather_ok h
  have hasked : ∀ {u r o}, (u, r, o) ∈ src.asked pairs ↔
      (u, o) ∈ pairs ∧ r ∈ src.relationsOf o.typeId := by
    intro u r o
    simp only [Source.asked, List.mem_flatMap, List.mem_map, Prod.exists, Prod.mk.injEq]
    constructor
    · rintro ⟨u', o', hp, r', hr, rfl, rfl, rfl⟩
      exact ⟨hp, hr⟩
    · exact fun ⟨hp, hr⟩ => ⟨u, o, hp, r, hr, rfl, rfl, rfl⟩
  rw [hmem]
  constructor
  · rintro ⟨⟨u, r, o⟩, hx, cs, hdec, hrow⟩
    cases hd : src.decide u r o with
    | error e => simp [hd, Except.map] at hdec
    | ok allowed =>
      obtain rfl : (if allowed then [src.row u r o] else []) = cs := by
        simpa [hd, Except.map] using hdec
      cases allowed with
      | false => cases hrow
      | true =>
        obtain rfl := List.mem_singleton.mp hrow
        exact ⟨(hasked.mp hx).1, (hF.answer_iff hd).mp rfl, rfl⟩
  · rintro ⟨hp, hans, hrow⟩
    have hx := hasked.mpr ⟨hp, hF.mem_relationsOf hans⟩
    obtain ⟨cs, hcs⟩ := hall _ hx
    refine ⟨_, hx, cs, hcs, ?_⟩
    cases hd : src.decide row.user row.relation row.object with
    | error e => simp [hd, Except.map] at hcs
    | ok allowed =>
      -- what holds was decided so
      obtain rfl := (hF.answer_iff hd).mpr hans
      obtain rfl : [src.row row.user row.relation row.object] = cs := by
        simpa [hd, Except.map] using hcs
      exact List.mem_singleton.mpr hrow

/-- The pairs with the transitions are those of a refresh. -/
theorem mem_withTransitions (hF : src.Describes F) {p : Entity × Entity} :
    p ∈ src.withTransitions T claimed ↔
      p ∈ Defaults.refreshed stars stars T.view F {p | p ∈ claimed} := by
  obtain ⟨u, o⟩ := p
  have hsub : (u, o) ∈ src.subjectTransitions T claimed ↔ (∃ b, (u, b) ∈ claimed) ∧
      u ∈ F.left ∧ u ≠ stars.of u ∧ u ∉ T.view.left ∧ ∃ r, (stars.of u, o, r) ∈ T.view.rows := by
    rw [hF.mem_left, Entity.ne_star]
    simp only [Source.subjectTransitions, List.mem_flatMap, List.mem_filter, List.mem_map,
      decide_eq_true_eq, Prod.exists, Prod.mk.injEq]
    constructor
    · rintro ⟨a, ⟨⟨a', b, hab, rfl⟩, hk, hne, hl⟩, row, ⟨hrow, hstar⟩, rfl, rfl⟩
      exact ⟨⟨b, hab⟩, hk, hne, hl, row.relation, row, hrow, hstar, rfl, rfl⟩
    · rintro ⟨⟨b, hab⟩, hk, hne, hl, r, row, hrow, hstar, hobj, -⟩
      exact ⟨u, ⟨⟨u, b, hab, rfl⟩, hk, hne, hl⟩, row, ⟨hrow, hstar⟩, rfl, hobj⟩
  have hobj : (u, o) ∈ src.objectTransitions T claimed ↔ (∃ a, (a, o) ∈ claimed) ∧
      o ∈ F.right ∧ o ≠ stars.of o ∧ o ∉ T.view.right ∧ ∃ r, (u, stars.of o, r) ∈ T.view.rows := by
    rw [hF.mem_right, Entity.ne_star]
    simp only [Source.objectTransitions, List.mem_flatMap, List.mem_filter, List.mem_map,
      decide_eq_true_eq, Prod.exists, Prod.mk.injEq]
    constructor
    · rintro ⟨b, ⟨⟨a, b', hab, rfl⟩, hk, hne, hl⟩, row, ⟨hrow, hstar⟩, rfl, rfl⟩
      exact ⟨⟨a, hab⟩, hk, hne, fun ⟨x, hx, hxo⟩ => hl x hx hxo, row.relation, row, hrow, rfl,
        hstar, rfl⟩
    · rintro ⟨⟨a, hab⟩, hk, hne, hl, r, row, hrow, huser, hstar, -⟩
      exact ⟨o, ⟨⟨a, o, hab, rfl⟩, hk, hne, fun x hx hxo => hl ⟨x, hx, hxo⟩⟩, row,
        ⟨hrow, hstar⟩, huser, rfl⟩
  rw [Source.withTransitions, List.mem_dedup, List.mem_append, List.mem_append, hsub, hobj, or_assoc]
  exact Iff.rfl

theorem mem_listSubjects (hstar : ∀ u ∈ T.subjects, u.id ≠ wildcard) {subjects : List Entity}
    {u : Entity} : u ∈ src.listSubjects T subjects ↔
      if u ∈ subjects then src.subjectHasTuples u = true ∧ u.id ≠ wildcard else u ∈ T.subjects := by
  simp only [Source.listSubjects, List.mem_append, List.mem_filter, decide_eq_true_eq]
  split
  · rename_i hu
    constructor
    · rintro (⟨hT, hk⟩ | ⟨⟨-, h⟩, -⟩)
      · exact ⟨by simpa using fun h => hk ⟨hu, h⟩, hstar u hT⟩
      · exact h
    · intro h
      by_cases hT : u ∈ T.subjects
      · exact .inl ⟨hT, fun hk => absurd (h.1.symm.trans hk.2) (by decide)⟩
      · exact .inr ⟨⟨hu, h⟩, fun hk => hT hk.1⟩
  · rename_i hu
    exact ⟨fun h => h.elim (fun h => h.1) fun h => absurd h.1.1 hu,
      fun h => .inl ⟨h, fun hk => hu hk.1⟩⟩

theorem mem_listObjects (hstar : ∀ x ∈ T.objects, x.1.id ≠ wildcard) {objects : List Entity}
    {o : Entity} : (∃ x ∈ src.listObjects T objects, x.1 = o) ↔
      if o ∈ objects then src.objectHasTuples o = true ∧ o.id ≠ wildcard
      else ∃ x ∈ T.objects, x.1 = o := by
  simp only [Source.listObjects, List.mem_append, List.mem_filter, List.mem_map, decide_eq_true_eq]
  split
  · rename_i ho
    constructor
    · rintro ⟨x, ⟨hT, hk⟩ | ⟨⟨o', ⟨-, h⟩, rfl⟩, -⟩, rfl⟩
      · exact ⟨by simpa using fun h => hk ⟨ho, .inl h⟩, hstar x hT⟩
      · exact h
    · intro h
      -- the object under its namespace is kept or comes
      by_cases hkept : (o, src.namespaceName o) ∈ T.objects
      · refine ⟨_, .inl ⟨hkept, ?_⟩, rfl⟩
        rintro ⟨-, hk | hk⟩
        · exact absurd (h.1.symm.trans hk) (by decide)
        · exact hk rfl
      · exact ⟨_, .inr ⟨⟨o, ⟨ho, h⟩, rfl⟩, fun hk => hkept hk.1⟩, rfl⟩
  · rename_i ho
    constructor
    · rintro ⟨x, ⟨hT, -⟩ | ⟨⟨o', ⟨ho', -⟩, rfl⟩, -⟩, rfl⟩
      · exact ⟨x, hT, rfl⟩
      · exact absurd ho' ho
    · rintro ⟨x, hT, rfl⟩
      exact ⟨x, .inl ⟨hT, fun hk => ho hk.1⟩, rfl⟩

theorem mem_knownPairs (hF : src.Describes F) {all : List (Entity × Entity)} {u o : Entity} :
    (u, o) ∈ src.knownPairs all ↔ (u, o) ∈ all ∧ o ∈ F.right ∧ u ∈ F.left := by
  simp [Source.knownPairs, hF.mem_left, hF.mem_right]

theorem mem_objects {all : List (Entity × Entity)} {o : Entity} :
    o ∈ (all.map Prod.snd).dedup ↔ ∃ u, (u, o) ∈ all := by simp

theorem mem_subjects {all : List (Entity × Entity)} {u : Entity} :
    u ∈ (all.map Prod.fst).dedup ↔ ∃ o, (u, o) ∈ all := by simp

/-- The rows after a derivation: the wanted ones, and the stored ones outside the pairs whose
subject and object have not lost their tuples. -/
theorem mem_diff (hF : src.Describes F) {all : List (Entity × Entity)} {wanted : List RelationRow}
    {row : RelationRow} : row ∈ (src.diff T all wanted).tables.relations ↔
      row ∈ wanted ∨ (row ∈ T.relations ∧ ((∃ u, (u, row.object) ∈ all) → row.object ∈ F.right) ∧
        ((∃ o, (row.user, o) ∈ all) → row.user ∈ F.left) ∧
        (row.user, row.object) ∉ src.knownPairs all) := by
  have hbool : ∀ {p : Prop} {b : Bool}, ¬ (p ∧ b = false) ↔ (p → b = true) := by
    intro p b
    cases b <;> simp
  simp only [Source.diff, List.mem_append, List.mem_filter, decide_eq_true_eq, hbool, mem_objects,
    mem_subjects, ← hF.mem_left, ← hF.mem_right, not_and, not_not]
  by_cases hwanted : row ∈ wanted
  · -- a wanted row is kept or inserted
    simp only [hwanted, implies_true, and_true, true_and, true_or, iff_true]
    tauto
  · simp only [hwanted, false_or, false_and, or_false, imp_false, and_assoc]

/-- **A derivation refreshes the tables over its pairs.** -/
theorem derivePairs_refreshes (hF : src.Describes F) (hsubjects : ∀ u ∈ T.subjects, u.id ≠ wildcard)
    (hobjects : ∀ x ∈ T.objects, x.1.id ≠ wildcard) {d : Derivation}
    (h : src.derivePairs T claimed = .ok d) :
    Defaults.Refreshes stars stars T.view d.tables.view F {p | p ∈ claimed} := by
  unfold Source.derivePairs at h
  set all := src.withTransitions T claimed with hall
  cases hw : src.want (src.asked (src.knownPairs all)) with
  | error e => simp [hw, Except.map] at h
  | ok wanted =>
    obtain rfl : src.diff T all wanted = d := by simpa [hw, Except.map] using h
    have hmemAll : ∀ {p}, p ∈ Defaults.refreshed stars stars T.view F {p | p ∈ claimed} ↔
        p ∈ all := (mem_withTransitions hF).symm
    have hviewRows : ∀ {u o r}, (u, o, r) ∈ (src.diff T all wanted).tables.view.rows ↔
        ∃ row ∈ (src.diff T all wanted).tables.relations,
          row.user = u ∧ row.object = o ∧ row.relation = r := Iff.rfl
    refine
      { left_pair := fun {u o} hp => ?_
        left_other := fun {u} hp => ?_
        right_pair := fun {u o} hp => ?_
        right_other := fun {o} hp => ?_
        rows_pair := fun {u o} hp r => ?_
        rows_other := fun {u o} hp r => ?_ }
    · rw [hF.mem_left, Entity.ne_star]
      exact (mem_listSubjects hsubjects).trans (by rw [if_pos (mem_subjects.mpr ⟨o, hmemAll.mp hp⟩)])
    · refine (mem_listSubjects hsubjects).trans ?_
      rw [if_neg fun hu => (mem_subjects.mp hu).elim fun o ho => hp o (hmemAll.mpr ho)]
      exact Iff.rfl
    · rw [hF.mem_right, Entity.ne_star]
      exact (mem_listObjects hobjects).trans (by rw [if_pos (mem_objects.mpr ⟨u, hmemAll.mp hp⟩)])
    · refine (mem_listObjects hobjects).trans ?_
      rw [if_neg fun ho => (mem_objects.mp ho).elim fun u hu => hp u (hmemAll.mpr hu)]
      exact Iff.rfl
    · -- the rows of a pair are the wanted ones
      have hmem := hmemAll.mp hp
      rw [hviewRows]
      constructor
      · rintro ⟨row, hrow, rfl, rfl, rfl⟩
        rcases (mem_diff hF).mp hrow with hwanted | ⟨-, ho, hu, hnot⟩
        · obtain ⟨hpair, hans, -⟩ := (want_iff hF hw).mp hwanted
          exact ⟨((mem_knownPairs hF).mp hpair).2.2, ((mem_knownPairs hF).mp hpair).2.1, hans⟩
        · exact absurd ((mem_knownPairs hF).mpr ⟨hmem, ho ⟨_, hmem⟩, hu ⟨_, hmem⟩⟩) hnot
      · rintro ⟨hu, ho, hans⟩
        exact ⟨src.row u r o, (mem_diff hF).mpr (.inl ((want_iff hF hw).mpr
          ⟨(mem_knownPairs hF).mpr ⟨hmem, ho, hu⟩, hans, rfl⟩)), rfl, rfl, rfl⟩
    · -- outside the pairs a row stays unless its subject or its object lost its tuples
      have hnot : (u, o) ∉ src.knownPairs all :=
        fun hpair => hp (hmemAll.mpr ((mem_knownPairs hF).mp hpair).1)
      simp only [hviewRows, hmemAll]
      constructor
      · rintro ⟨row, hrow, rfl, rfl, rfl⟩
        rcases (mem_diff hF).mp hrow with hwanted | ⟨hT, ho, hu, -⟩
        · exact absurd ((want_iff hF hw).mp hwanted).1 hnot
        · exact ⟨⟨row, hT, rfl, rfl, rfl⟩, hu, ho⟩
      · rintro ⟨⟨row, hT, rfl, rfl, rfl⟩, hu, ho⟩
        exact ⟨row, (mem_diff hF).mpr (.inr ⟨hT, ho, hu, hnot⟩), rfl, rfl, rfl⟩

end Derive

end Derived

end PgAuthz
