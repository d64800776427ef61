import PgAuthz.Gates.Evaluation
import PgAuthz.Keyed.Table
import PgAuthz.Store.AuditLog

/-!
# The export of a subject

`export_subject` gathers what a store holds about one subject: its tuples, the tuples on it, what it
can reach, its events, the events on it and the audit rows that name it. The lists of tuples are
joined to the names of types and relations and are not limited. The lists of events keep rows without
names. The audit rows are joined to names after the limit, and counted after the join: a row of a
type or a relation that was removed since is dropped, and hides from the flag what was cut off.

## Main definitions

* `State`, `Request`, `Export`: the rows, the arguments and the document
* `listSubjectObjects`, `exportSubject`: `list_subject_objects` and `export_subject`
* `Complete`: every list holds every row about the subject, or says that it does not
* `Exportable`: the rows the joins keep

## Main results

* `subperm_filter_iff`: a filter that loses no row
* `export_complete_iff`: the export is complete exactly where the joins keep every row they meet
-/

namespace PgAuthz.SubjectExport

open Gates (EventKind Json)
open Keyed (refuseIf)

/-! ## The rows -/

/-- A row of a dictionary: of `authz.types`, `authz.relations` or `authz.conditions`. -/
structure NameRow where
  id : ℕ
  storeId : ℕ
  name : String
deriving DecidableEq, Repr

/-- The name under a primary key. -/
def nameOf (rows : List NameRow) (id : ℕ) : Option String :=
  (rows.find? fun r => r.id = id).map NameRow.name

/-- A row of `authz.tuples`, with the store and the time of the write. -/
structure StoredTuple extends Tuple where
  storeId : ℕ
  createdAt : ℤ
deriving DecidableEq, Repr

/-- A row of `authz.events`. -/
structure EventRow where
  storeId : ℕ
  seq : ℤ
  eventId : Option String
  subjectType : ℕ
  subjectId : String
  action : ℕ
  objectType : Option ℕ
  objectId : Option String
  kind : EventKind
  payload : Json
  occurredAt : ℤ
  recordedAt : ℤ
  recordedBy : String

/-- The position of an event in the action log. -/
def EventRow.key (e : EventRow) : ℤ ×ₗ ℤ := toLex (e.occurredAt, e.seq)

/-- A rule of a model, as far as the export asks for it. -/
structure ModelRow where
  storeId : ℕ
  objectType : ℕ
  relation : ℕ
deriving DecidableEq, Repr

/-- The database: stores with their names, the dictionaries of all stores, and their rows; `now` is
the time of the statement. -/
structure State where
  stores : List (ℕ × String)
  types : List NameRow
  relations : List NameRow
  conditions : List NameRow
  models : List ModelRow
  tuples : List StoredTuple
  events : List EventRow
  audit : List AuditRow
  now : ℤ

/-- The arguments of `export_subject`. -/
structure Request where
  store : String
  userType : String
  userId : Option String
  relations : Option (List String)
  includeEffective : Bool
  includeEvents : Bool
  includeAudit : Bool
  limit : Option ℤ

/-- A subject of a store, by the ids of the database. -/
structure Subject where
  storeId : ℕ
  typeId : ℕ
  userId : String
deriving DecidableEq, Repr

/-! ## The entries of the document -/

/-- An entry of `direct`. -/
structure DirectEntry where
  objectType : Option String
  objectId : String
  relation : Option String
  userRelation : Option String
  condition : Option String
  conditionContext : Option Context
  createdAt : ℤ
  expiresAt : Option ℤ
  expired : Bool
deriving DecidableEq, Repr

/-- An entry of `as_object`. -/
structure ObjectEntry where
  userType : Option String
  userId : String
  userRelation : Option String
  relation : Option String
  condition : Option String
  conditionContext : Option Context
  createdAt : ℤ
  expiresAt : Option ℤ
  expired : Bool
deriving DecidableEq, Repr

/-- An entry of `events` and of `events_about`. -/
structure EventEntry where
  seq : ℤ
  eventId : Option String
  subjectType : Option String
  subjectId : String
  action : Option String
  objectType : Option String
  objectId : Option String
  kind : EventKind
  payload : Json
  occurredAt : ℤ
  recordedAt : ℤ
  recordedBy : String

/-- An entry of `audit`. -/
structure AuditEntry where
  performedAt : ℤ
  performedBy : String
  action : AuditAction
  userType : Option String
  userId : String
  userRelation : Option String
  relation : Option String
  objectType : Option String
  objectId : String
  conditionContext : Option Context
deriving DecidableEq, Repr

/-- A row of `list_subject_objects`. -/
structure SubjectObject where
  objectType : String
  relation : String
  objectId : String
  isWildcard : Bool
  direct : Bool
  truncated : Bool
deriving DecidableEq, Repr

/-- An entry of `effective`. -/
structure EffectiveEntry where
  objectType : String
  relation : String
  objects : List String
  direct : Option (List String)
  truncated : Bool
deriving DecidableEq, Repr

/-- The exported document. -/
structure Export where
  store : String
  subjectType : String
  subjectId : String
  exportedAt : ℤ
  limit : ℤ
  direct : List DirectEntry
  asObject : List ObjectEntry
  effective : List EffectiveEntry
  events : Option (List EventEntry)
  eventsTruncated : Bool
  eventsAbout : Option (List EventEntry)
  eventsAboutTruncated : Bool
  audit : Option (List AuditEntry)
  auditTruncated : Bool

namespace State

variable (s : State)

/-- The entry of a tuple in `direct`: what the columns say, with the names of the ids. -/
def directEntry (t : StoredTuple) : DirectEntry where
  objectType := nameOf s.types t.objectType
  objectId := t.objectId
  relation := nameOf s.relations t.relation
  userRelation := t.userRelation.bind (nameOf s.relations)
  condition := t.conditionId.bind (nameOf s.conditions)
  conditionContext := t.conditionContext
  createdAt := t.createdAt
  expiresAt := t.expiresAt
  expired := !t.visibleAt s.now

/-- The entry of a tuple in `as_object`. -/
def objectEntry (t : StoredTuple) : ObjectEntry where
  userType := nameOf s.types t.userType
  userId := t.userId
  userRelation := t.userRelation.bind (nameOf s.relations)
  relation := nameOf s.relations t.relation
  condition := t.conditionId.bind (nameOf s.conditions)
  conditionContext := t.conditionContext
  createdAt := t.createdAt
  expiresAt := t.expiresAt
  expired := !t.visibleAt s.now

/-- The entry of an event; a name that is gone is null. -/
def eventEntry (e : EventRow) : EventEntry where
  seq := e.seq
  eventId := e.eventId
  subjectType := nameOf s.types e.subjectType
  subjectId := e.subjectId
  action := nameOf s.relations e.action
  objectType := e.objectType.bind (nameOf s.types)
  objectId := e.objectId
  kind := e.kind
  payload := e.payload
  occurredAt := e.occurredAt
  recordedAt := e.recordedAt
  recordedBy := e.recordedBy

/-- The entry of an audit row. -/
def auditEntry (r : AuditRow) : AuditEntry where
  performedAt := r.performedAt
  performedBy := r.performedBy
  action := r.action
  userType := nameOf s.types r.userType
  userId := r.userId
  userRelation := r.userRelation.bind (nameOf s.relations)
  relation := nameOf s.relations r.relation
  objectType := nameOf s.types r.objectType
  objectId := r.objectId
  conditionContext := r.conditionContext

end State

/-! ## The rows about a subject -/

namespace Subject

variable (x : Subject)

/-- The tuple has the subject as its user. -/
def IsUser (t : StoredTuple) : Prop :=
  t.storeId = x.storeId ∧ t.userType = x.typeId ∧ t.userId = x.userId

/-- The tuple has the subject as its object. -/
def IsObject (t : StoredTuple) : Prop :=
  t.storeId = x.storeId ∧ t.objectType = x.typeId ∧ t.objectId = x.userId

/-- The subject did it. -/
def Did (e : EventRow) : Prop :=
  e.storeId = x.storeId ∧ e.subjectType = x.typeId ∧ e.subjectId = x.userId

/-- Another principal did it on the subject. -/
def Underwent (e : EventRow) : Prop :=
  e.storeId = x.storeId ∧ e.objectType = some x.typeId ∧ e.objectId = some x.userId ∧
    ¬(e.subjectType = x.typeId ∧ e.subjectId = x.userId)

/-- The audit row names the subject on either side. -/
def IsNamed (r : AuditRow) : Prop :=
  r.storeId = x.storeId ∧ ((r.userType = x.typeId ∧ r.userId = x.userId) ∨
    (r.objectType = x.typeId ∧ r.objectId = x.userId))

instance (t : StoredTuple) : Decidable (x.IsUser t) := inferInstanceAs (Decidable (_ ∧ _))
instance (t : StoredTuple) : Decidable (x.IsObject t) := inferInstanceAs (Decidable (_ ∧ _))
instance (e : EventRow) : Decidable (x.Did e) := inferInstanceAs (Decidable (_ ∧ _))
instance (e : EventRow) : Decidable (x.Underwent e) := inferInstanceAs (Decidable (_ ∧ _))
instance (r : AuditRow) : Decidable (x.IsNamed r) := inferInstanceAs (Decidable (_ ∧ _))

end Subject

/-- The two sides that `_rls_subject_tuples` tells apart. -/
inductive Side
  | subject
  | object
deriving DecidableEq, Repr

namespace State

variable (s : State)

/-- `_rls_subject_tuples`: the tuples naming the subject with their side, expired ones too. -/
def rlsSubjectTuples (x : Subject) : List (Side × StoredTuple) :=
  (s.tuples.filter fun t => x.IsUser t ∨ x.IsObject t).map fun t =>
    (if t.userType = x.typeId ∧ t.userId = x.userId then .subject else .object, t)

/-- The join of a tuple to the type of its object and to its relation. -/
def joinsObject (t : StoredTuple) : Bool :=
  (nameOf s.types t.objectType).isSome && (nameOf s.relations t.relation).isSome

/-- The join of a tuple to the type of its user and to its relation. -/
def joinsUser (t : StoredTuple) : Bool :=
  (nameOf s.types t.userType).isSome && (nameOf s.relations t.relation).isSome

/-- The join of an audit row to both types and to its relation. -/
def joinsAudit (r : AuditRow) : Bool :=
  (nameOf s.types r.userType).isSome && (nameOf s.types r.objectType).isSome &&
    (nameOf s.relations r.relation).isSome

/-- `direct`: the subject's own tuples, by object type, relation and object. -/
def direct (x : Subject) : List DirectEntry :=
  (((s.rlsSubjectTuples x).filter fun p => p.1 = .subject && s.joinsObject p.2).map
    fun p => s.directEntry p.2).insertionSort fun a b =>
      toLex (a.objectType.getD "", toLex (a.relation.getD "", a.objectId)) ≤
        toLex (b.objectType.getD "", toLex (b.relation.getD "", b.objectId))

/-- `as_object`: the tuples on the subject, by relation and user. -/
def asObject (x : Subject) : List ObjectEntry :=
  (((s.rlsSubjectTuples x).filter fun p => p.1 = .object && s.joinsUser p.2).map
    fun p => s.objectEntry p.2).insertionSort fun a b =>
      toLex (a.relation.getD "", toLex (a.userType.getD "", a.userId)) ≤
        toLex (b.relation.getD "", toLex (b.userType.getD "", b.userId))

/-- `list_events` of a subject with a limit: the first of its actions. -/
def listEvents (x : Subject) (limit : ℤ) : List EventRow :=
  ((s.events.filter fun e => x.Did e).insertionSort fun a b => a.key ≤ b.key).take limit.toNat

/-- The first of the actions of others on the subject. -/
def aboutEvents (x : Subject) (limit : ℤ) : List EventRow :=
  ((s.events.filter fun e => x.Underwent e).insertionSort fun a b => a.key ≤ b.key).take limit.toNat

/-- The first audit rows that name the subject, before the join to names. -/
def auditWindow (x : Subject) (limit : ℤ) : List AuditRow :=
  (inOrder (s.audit.filter fun r => x.IsNamed r)).take limit.toNat

end State

/-! ## What the subject can reach -/

/-- `p_limit + 1` for a parameter of type `int`. -/
def intSucc (limit : ℤ) : Except String ℤ :=
  if 2147483647 ≤ limit then .error "integer out of range" else .ok (limit + 1)

/-- `list_objects` for the subject, by the relation, the object type and the limit. -/
abbrev ListObjects := String → String → ℤ → Except String (List (String × Bool))

/-- The pairs of an object type and a relation that the model of the store defines, by name. -/
def State.subjectPairs (s : State) (storeId : ℕ) (relations objectTypes : Option (List String)) :
    List (NameRow × NameRow) :=
  ((s.models.filter fun m => m.storeId = storeId).filterMap fun m => do
    let ot ← s.types.find? fun t => t.id = m.objectType
    let rl ← s.relations.find? fun r => r.id = m.relation
    if relations.all (rl.name ∈ ·) ∧ objectTypes.all (ot.name ∈ ·) then some (ot, rl)
    else none).dedup.insertionSort fun p q =>
      toLex (p.1.name, p.2.name) ≤ toLex (q.1.name, q.2.name)

/-- `list_subject_objects` -/
def listSubjectObjects (s : State) (listObjects : ListObjects) (x : Subject)
    (relations objectTypes : Option (List String)) (limit : ℤ) :
    Except String (List SubjectObject) := do
  let rows ← (s.subjectPairs x.storeId relations objectTypes).mapM fun (ot, rl) => do
    let objects ← listObjects rl.name ot.name (← intSucc limit)
    -- the wildcard row first, then by id
    let ranked := (objects.insertionSort fun a b => toLex (!a.2, a.1) ≤ toLex (!b.2, b.1)).zipIdx 1
    pure ((ranked.filter fun o => (o.2 : ℤ) ≤ limit + 1).map fun o =>
      { objectType := ot.name
        relation := rl.name
        objectId := if o.1.2 then wildcard else o.1.1
        isWildcard := o.1.2
        direct := s.tuples.any fun t => t.storeId = x.storeId ∧ t.objectType = ot.id ∧
          t.relation = rl.id ∧ t.objectId = o.1.1 ∧ t.userType = x.typeId ∧ t.userId = x.userId ∧
          t.userRelation = none ∧ t.visibleAt s.now
        truncated := limit < (o.2 : ℤ) : SubjectObject })
  pure rows.flatten

/-- `effective`: the rows of `list_subject_objects` by object type and relation. -/
def groupEffective (rows : List SubjectObject) : List EffectiveEntry :=
  ((rows.map fun o => (o.objectType, o.relation)).dedup.insertionSort
    fun p q => toLex p ≤ toLex q).map fun p =>
      let group := rows.filter fun o => o.objectType = p.1 ∧ o.relation = p.2
      let kept := (group.filter fun o => !o.truncated).insertionSort fun a b =>
        toLex (!a.isWildcard, a.objectId) ≤ toLex (!b.isWildcard, b.objectId)
      let direct := ((kept.filter fun o => o.direct).map SubjectObject.objectId).insertionSort (· ≤ ·)
      { objectType := p.1
        relation := p.2
        objects := kept.map SubjectObject.objectId
        direct := if direct = [] then none else some direct
        truncated := group.any fun o => o.truncated }

/-! ## The export -/

/-- `_s` with retired stores -/
def State.storeId (s : State) (store : String) : Except String ℕ :=
  match s.stores.find? fun p => p.2 = store with
  | some p => .ok p.1
  | none => .error s!"Unknown store: {store}"

/-- `_t` -/
def State.typeId (s : State) (storeId : ℕ) (name : String) : Except String ℕ :=
  match s.types.find? fun t => t.storeId = storeId ∧ t.name = name with
  | some t => .ok t.id
  | none => .error s!"Unknown type: {name}"

/-- The subject and the limit of a request: the store and the type by their names, a subject that is
not blank and a limit of at least one. -/
def State.resolve (s : State) (r : Request) : Except String (Subject × ℤ) := do
  let storeId ← s.storeId r.store
  let typeId ← s.typeId storeId r.userType
  match r.userId, r.limit with
  | none, _ => .error "p_user_id is required"
  | some u, limit =>
    refuseIf (u.toList.all (· = ' ')) "p_user_id is required"
    match limit with
    | none => .error "p_limit must be >= 1"
    | some n =>
      refuseIf (n < 1) "p_limit must be >= 1"
      pure (⟨storeId, typeId, u⟩, n)

/-- A list cut to the limit, and whether it was longer. -/
def cut {α : Type} (limit : ℤ) (rows : List α) : List α × Bool :=
  if limit < rows.length then (rows.take limit.toNat, true) else (rows, false)

/-- A list of the document with its flag: null unless it is asked for, and else what is read with a
limit of one more, cut. -/
def limited {α : Type} (asked : Bool) (limit : ℤ) (read : ℤ → List α) :
    Except String (Option (List α) × Bool) :=
  if asked then do
    let rows := cut limit (read (← intSucc limit))
    pure (some rows.1, rows.2)
  else pure (none, false)

/-- `effective`, if it is asked for. -/
def effectivePart (s : State) (listObjects : ListObjects) (x : Subject) (r : Request) (limit : ℤ) :
    Except String (List EffectiveEntry) :=
  if r.includeEffective then
    groupEffective <$> listSubjectObjects s listObjects x r.relations none limit
  else pure []

/-- `export_subject` -/
def exportSubject (s : State) (listObjects : ListObjects) (r : Request) : Except String Export := do
  let (x, limit) ← s.resolve r
  let effective ← effectivePart s listObjects x r limit
  let events ← limited r.includeEvents limit fun n => (s.listEvents x n).map s.eventEntry
  let about ← limited r.includeEvents limit fun n => (s.aboutEvents x n).map s.eventEntry
  -- the limit is applied before the join
  let audit ← limited r.includeAudit limit fun n =>
    ((s.auditWindow x n).filter s.joinsAudit).map s.auditEntry
  pure
    { store := r.store
      subjectType := r.userType
      subjectId := x.userId
      exportedAt := s.now
      limit := limit
      direct := s.direct x
      asObject := s.asObject x
      effective := effective
      events := events.1
      eventsTruncated := events.2
      eventsAbout := about.1
      eventsAboutTruncated := about.2
      audit := audit.1
      auditTruncated := audit.2 }

/-! ## Complete exports -/

/-- **The export is complete or says so**: every list holds every row of the store that it is about,
unless its flag says that it does not. The lists of tuples have no flag. -/
structure Complete (s : State) (x : Subject) (doc : Export) : Prop where
  direct : ((s.tuples.filter fun t => x.IsUser t).map s.directEntry).Subperm doc.direct
  asObject : ((s.tuples.filter fun t => x.IsObject t).map s.objectEntry).Subperm doc.asObject
  events : ∀ l, doc.events = some l → doc.eventsTruncated = true ∨
    ((s.events.filter fun e => x.Did e).map s.eventEntry).Subperm l
  eventsAbout : ∀ l, doc.eventsAbout = some l → doc.eventsAboutTruncated = true ∨
    ((s.events.filter fun e => x.Underwent e).map s.eventEntry).Subperm l
  audit : ∀ l, doc.audit = some l → doc.auditTruncated = true ∨
    ((s.audit.filter fun r => x.IsNamed r).map s.auditEntry).Subperm l

/-- The rows that the export joins still have their names, and no tuple of the subject is on the
subject itself. -/
structure Exportable (s : State) (x : Subject) (includeAudit : Bool) (limit : ℤ) : Prop where
  direct : ∀ t ∈ s.tuples, x.IsUser t → s.joinsObject t = true
  asObject : ∀ t ∈ s.tuples, x.IsObject t → s.joinsUser t = true ∧ ¬x.IsUser t
  audit : includeAudit = true → ∀ r ∈ s.auditWindow x (limit + 1), s.joinsAudit r = true

section Lists

variable {α β : Type}

/-- A list that is filtered loses no row exactly if the filter keeps every one. -/
theorem subperm_filter_iff {rows : List α} {keep : α → Bool} {f : α → β} :
    (rows.map f).Subperm ((rows.filter keep).map f) ↔ ∀ r ∈ rows, keep r = true := by
  constructor
  · intro h
    have hlen := h.length_le
    rw [List.length_map, List.length_map] at hlen
    apply List.length_filter_eq_length_iff.mp
    exact le_antisymm (List.length_filter_le keep rows) hlen
  · intro h
    rw [List.filter_eq_self.mpr h]

theorem cut_of_le {limit : ℤ} {rows : List α} (h : (rows.length : ℤ) ≤ limit) :
    cut limit rows = (rows, false) := by
  rw [cut, if_neg (by omega)]

theorem cut_of_lt {limit : ℤ} {rows : List α} (h : limit < rows.length) :
    (cut limit rows).2 = true := by
  rw [cut, if_pos h]

/-- **A list read with one row more than the limit and then filtered** is complete, or says that it
is not, exactly if the filter keeps every row that was read. -/
theorem cut_complete_iff {rows sorted : List α} (hperm : sorted.Perm rows) (f : α → β)
    (keep : α → Bool) {limit : ℤ} (hlimit : 1 ≤ limit) :
    ((cut limit (((sorted.take (limit + 1).toNat).filter keep).map f)).2 = true ∨
        (rows.map f).Subperm (cut limit (((sorted.take (limit + 1).toNat).filter keep).map f)).1) ↔
      ∀ r ∈ sorted.take (limit + 1).toNat, keep r = true := by
  have hwindow : (sorted.take (limit + 1).toNat).length = min (limit + 1).toNat rows.length := by
    rw [List.length_take, hperm.length_eq]
  constructor
  · intro h
    by_contra hlost
    -- a row that is dropped leaves room below the limit, and the flag is not set
    have hfewer : ((sorted.take (limit + 1).toNat).filter keep).length <
        (sorted.take (limit + 1).toNat).length := by
      refine lt_of_le_of_ne (List.length_filter_le _ _) fun heq => hlost ?_
      exact List.length_filter_eq_length_iff.mp heq
    rw [cut_of_le (by rw [List.length_map]; omega)] at h
    rcases h with h | h
    · cases h
    · have hlen := h.length_le
      rw [List.length_map, List.length_map] at hlen
      omega
  · intro h
    rw [List.filter_eq_self.mpr h]
    by_cases hlong : limit < rows.length
    · refine .inl (cut_of_lt ?_)
      rw [List.length_map, hwindow]
      omega
    · right
      have hshort : sorted.length ≤ (limit + 1).toNat := by
        rw [hperm.length_eq]
        omega
      rw [List.take_of_length_le hshort, cut_of_le (by rw [List.length_map, hperm.length_eq]; omega)]
      exact (hperm.symm.map f).subperm

end Lists

variable {s : State} {x : Subject} {listObjects : ListObjects} {r : Request} {limit : ℤ}
  {doc : Export}

/-! ## The lists of tuples -/

theorem direct_perm : (s.direct x).Perm
    (((s.tuples.filter fun t => x.IsUser t).filter s.joinsObject).map s.directEntry) := by
  refine (List.perm_insertionSort _ _).trans (List.Perm.of_eq ?_)
  rw [State.rlsSubjectTuples, List.filter_map, List.map_map, List.filter_filter, List.filter_filter]
  congr 1
  refine List.filter_congr fun t _ => ?_
  by_cases hside : t.userType = x.typeId ∧ t.userId = x.userId
  · by_cases hst : t.storeId = x.storeId <;>
      simp [hside, hst, Subject.IsUser, Subject.IsObject]
  · simp [hside, Subject.IsUser]

theorem asObject_perm : (s.asObject x).Perm
    (((s.tuples.filter fun t => x.IsObject t).filter fun t => s.joinsUser t && !x.IsUser t).map
      s.objectEntry) := by
  refine (List.perm_insertionSort _ _).trans (List.Perm.of_eq ?_)
  rw [State.rlsSubjectTuples, List.filter_map, List.map_map, List.filter_filter, List.filter_filter]
  congr 1
  refine List.filter_congr fun t _ => ?_
  by_cases hside : t.userType = x.typeId ∧ t.userId = x.userId
  · by_cases hst : t.storeId = x.storeId <;>
      simp [hside, hst, Subject.IsUser, Subject.IsObject]
  · by_cases hst : t.storeId = x.storeId <;>
      simp [hside, hst, Subject.IsUser, Subject.IsObject]

theorem direct_complete_iff :
    ((s.tuples.filter fun t => x.IsUser t).map s.directEntry).Subperm (s.direct x) ↔
      ∀ t ∈ s.tuples, x.IsUser t → s.joinsObject t = true := by
  rw [direct_perm.subperm_left, subperm_filter_iff]
  simp

theorem asObject_complete_iff :
    ((s.tuples.filter fun t => x.IsObject t).map s.objectEntry).Subperm (s.asObject x) ↔
      ∀ t ∈ s.tuples, x.IsObject t → s.joinsUser t = true ∧ ¬x.IsUser t := by
  rw [asObject_perm.subperm_left, subperm_filter_iff]
  simp

/-! ## The parts of the document -/

theorem one_le_of_resolve (h : s.resolve r = .ok (x, limit)) : 1 ≤ limit := by
  obtain ⟨storeId, -, h⟩ := Keyed.bind_eq_ok_iff.mp h
  obtain ⟨typeId, -, h⟩ := Keyed.bind_eq_ok_iff.mp h
  cases hid : r.userId with
  | none => simp [hid] at h
  | some u =>
    rw [hid] at h
    obtain ⟨-, -, h⟩ := Keyed.bind_eq_ok_iff.mp h
    cases hlimit : r.limit with
    | none => simp [hlimit] at h
    | some n =>
      rw [hlimit] at h
      obtain ⟨_, hn, h⟩ := Keyed.bind_eq_ok_iff.mp h
      rw [Keyed.refuseIf_eq_ok] at hn
      cases h
      omega

/-- A part of the document that was asked for is what is read with one row more, cut. -/
theorem limited_eq_ok {α : Type} {asked : Bool} {read : ℤ → List α} {part : Option (List α) × Bool}
    (h : limited asked limit read = .ok part) {l : List α} (hl : part.1 = some l) :
    asked = true ∧ l = (cut limit (read (limit + 1))).1 ∧
      part.2 = (cut limit (read (limit + 1))).2 := by
  unfold limited at h
  split at h
  · rename_i hasked
    obtain ⟨n, hn, h⟩ := Keyed.bind_eq_ok_iff.mp h
    unfold intSucc at hn
    split at hn
    · cases hn
    · cases hn
      cases h
      cases hl
      exact ⟨hasked, rfl, rfl⟩
  · cases h
    cases hl

theorem limited_of_asked {α : Type} {read : ℤ → List α} {part : Option (List α) × Bool}
    (h : limited true limit read = .ok part) : ∃ l, part.1 = some l := by
  obtain ⟨n, -, h⟩ := Keyed.bind_eq_ok_iff.mp h
  cases h
  exact ⟨_, rfl⟩

/-- The parts of an exported document. -/
theorem exportSubject_parts (hx : s.resolve r = .ok (x, limit))
    (h : exportSubject s listObjects r = .ok doc) :
    doc.direct = s.direct x ∧ doc.asObject = s.asObject x ∧
      limited r.includeEvents limit (fun n => (s.listEvents x n).map s.eventEntry) =
        .ok (doc.events, doc.eventsTruncated) ∧
      limited r.includeEvents limit (fun n => (s.aboutEvents x n).map s.eventEntry) =
        .ok (doc.eventsAbout, doc.eventsAboutTruncated) ∧
      limited r.includeAudit limit
        (fun n => ((s.auditWindow x n).filter s.joinsAudit).map s.auditEntry) =
        .ok (doc.audit, doc.auditTruncated) := by
  obtain ⟨⟨x', limit'⟩, hx', h⟩ := Keyed.bind_eq_ok_iff.mp h
  rw [hx] at hx'
  cases hx'
  obtain ⟨effective, -, h⟩ := Keyed.bind_eq_ok_iff.mp h
  obtain ⟨events, hevents, h⟩ := Keyed.bind_eq_ok_iff.mp h
  obtain ⟨about, habout, h⟩ := Keyed.bind_eq_ok_iff.mp h
  obtain ⟨audit, haudit, h⟩ := Keyed.bind_eq_ok_iff.mp h
  cases h
  exact ⟨rfl, rfl, hevents, habout, haudit⟩

/-- A list of events keeps every row it reads. -/
theorem events_complete {rows : List EventRow} {asked : Bool}
    {part : Option (List EventEntry) × Bool} (hlimit : 1 ≤ limit)
    (h : limited asked limit (fun n => ((rows.insertionSort fun a b => a.key ≤ b.key).take
      n.toNat).map s.eventEntry) = .ok part) {l : List EventEntry} (hl : part.1 = some l) :
    part.2 = true ∨ (rows.map s.eventEntry).Subperm l := by
  obtain ⟨-, rfl, hflag⟩ := limited_eq_ok h hl
  rw [hflag]
  have hall := (cut_complete_iff (List.perm_insertionSort (fun a b : EventRow => a.key ≤ b.key) rows)
    s.eventEntry (fun _ => true) hlimit).mpr fun _ _ => rfl
  rwa [List.filter_true] at hall

/-- **What the export leaves out.** An exported document is complete, or says where it is not,
exactly if the tuples of the subject and on it have their names, none of them is both, and the audit
rows up to one more than the limit have theirs. -/
theorem export_complete_iff (hx : s.resolve r = .ok (x, limit))
    (h : exportSubject s listObjects r = .ok doc) :
    Complete s x doc ↔ Exportable s x r.includeAudit limit := by
  obtain ⟨hdirect, hobject, hevents, habout, haudit⟩ := exportSubject_parts hx h
  have hlimit := one_le_of_resolve hx
  have hperm : (inOrder (s.audit.filter fun r => x.IsNamed r)).Perm
      (s.audit.filter fun r => x.IsNamed r) := List.perm_insertionSort _ _
  have haudit_iff := cut_complete_iff hperm s.auditEntry s.joinsAudit hlimit
  constructor
  · intro hc
    refine ⟨direct_complete_iff.mp (hdirect ▸ hc.direct),
      asObject_complete_iff.mp (hobject ▸ hc.asObject), fun hasked => ?_⟩
    rw [hasked] at haudit
    obtain ⟨l, hl⟩ := limited_of_asked haudit
    obtain ⟨-, rfl, hflag⟩ := limited_eq_ok haudit hl
    apply haudit_iff.mp
    have hlist := hc.audit _ hl
    rwa [show doc.auditTruncated = _ from hflag] at hlist
  · intro he
    refine ⟨hdirect ▸ direct_complete_iff.mpr he.direct,
      hobject ▸ asObject_complete_iff.mpr he.asObject, fun l hl => ?_, fun l hl => ?_,
      fun l hl => ?_⟩
    · exact events_complete hlimit hevents hl
    · exact events_complete hlimit habout hl
    · obtain ⟨hasked, rfl, hflag⟩ := limited_eq_ok haudit hl
      rw [show doc.auditTruncated = _ from hflag]
      exact haudit_iff.mpr (he.audit hasked)

/-! ## An audit trail of a removed type -/

/-- A store whose type `doc` was removed after its tuples were deleted: the trail names the subject
four times, and the type of the first two rows is gone. -/
def removedTypeState : State where
  stores := [(1, "crm")]
  types := [⟨1, 1, "user"⟩, ⟨3, 1, "note"⟩]
  relations := [⟨1, 1, "reader"⟩]
  conditions := []
  models := [⟨1, 3, 1⟩]
  tuples := [⟨⟨1, "alice", none, 1, 3, "n1", none, none, none⟩, 1, 30⟩]
  events := []
  audit := [⟨⟨1, "alice", none, 1, 2, "d1", none, none, none⟩, 1, 1, .insert, 10, "app"⟩,
    ⟨⟨1, "alice", none, 1, 2, "d1", none, none, none⟩, 1, 2, .delete, 20, "app"⟩,
    ⟨⟨1, "alice", none, 1, 3, "n1", none, none, none⟩, 1, 4, .insert, 30, "app"⟩,
    ⟨⟨1, "alice", none, 1, 3, "n2", none, none, none⟩, 1, 5, .insert, 31, "app"⟩]
  now := 40

/-- The request for everything about `alice`, with a limit. -/
def aliceRequest (limit : ℤ) : Request where
  store := "crm"
  userType := "user"
  userId := some "alice"
  relations := none
  includeEffective := true
  includeEvents := true
  includeAudit := true
  limit := some limit

/-- The objects that `alice` may read. -/
def aliceObjects : ListObjects := fun _ _ _ => .ok [("n1", false)]

/-- The export holds no audit row at all and says that nothing was cut off, although three rows name
the subject. -/
theorem removedTypeState_incomplete : ∃ doc,
    exportSubject removedTypeState aliceObjects (aliceRequest 1) = .ok doc ∧
      doc.audit = some [] ∧ doc.auditTruncated = false ∧
      ¬Complete removedTypeState ⟨1, 1, "alice"⟩ doc := by
  have hrun : (exportSubject removedTypeState aliceObjects (aliceRequest 1)).toOption.any (fun doc =>
      decide (doc.audit = some [] ∧ doc.auditTruncated = false)) = true := by decide +kernel
  obtain ⟨doc, hdoc, hlist⟩ := (Option.any_eq_true _ _).mp hrun
  obtain ⟨haudit, hflag⟩ := of_decide_eq_true hlist
  refine ⟨doc, ?_, haudit, hflag, fun hc => ?_⟩
  · cases h : exportSubject removedTypeState aliceObjects (aliceRequest 1) with
    | error e =>
      rw [h] at hdoc
      cases hdoc
    | ok doc' =>
      rw [h] at hdoc
      cases hdoc
      rfl
  · rcases hc.audit [] haudit with h | h
    · rw [hflag] at h
      cases h
    · exact absurd h.length_le (by decide)

/-- The same store before the type was removed. -/
def keptTypeState : State := { removedTypeState with types := ⟨2, 1, "doc"⟩ :: removedTypeState.types }

theorem keptTypeState_exportable : Exportable keptTypeState ⟨1, 1, "alice"⟩ true 1 := by
  refine ⟨?_, ?_, ?_⟩ <;> decide +kernel

theorem export_complete_iff_keptTypeState : ∃ doc,
    exportSubject keptTypeState aliceObjects (aliceRequest 1) = .ok doc ∧
      Complete keptTypeState ⟨1, 1, "alice"⟩ doc := by
  have hrun : (exportSubject keptTypeState aliceObjects (aliceRequest 1)).isOk = true := by
    decide +kernel
  cases h : exportSubject keptTypeState aliceObjects (aliceRequest 1) with
  | error e =>
    rw [h] at hrun
    cases hrun
  | ok doc =>
    have hx : keptTypeState.resolve (aliceRequest 1) = .ok (⟨1, 1, "alice"⟩, 1) := by decide +kernel
    exact ⟨doc, rfl, (export_complete_iff hx h).mpr keptTypeState_exportable⟩

end PgAuthz.SubjectExport
