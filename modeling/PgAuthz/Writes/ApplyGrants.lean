import Mathlib.Logic.Function.Basic
import Mathlib.Data.Int.Notation
import Mathlib.Tactic.Common

/-!
# The events of a batch of grants

`apply_grants` authorises every entry against the tuples before the call and records its event there, if
it foresees that the entry will change a tuple. It foresees this on a simulated state of the tuples, which
it reads from the database as JSON when it first meets a tuple, and carries on from entry to entry. The
revocations and the grants are executed afterwards.

A tuple of the database is seen in the simulated state while it is active at the time of the statement. In
JSON, a stored context that is missing and one that is the JSON null are the same.

## Main definitions

* `Env`, `State`: what the call reads, and the rows and the events it changes
* `foresee`: the first pass
* `revokeRow`, `grantRow`, `sequential`: the execution of the entries
* `applyGrants`: the call
* `Exact`: the events are those of the entries that change a tuple
* `Confusing`: a grant about which the simulated state errs

## Main results

* `exact_iff`: the call is exact unless one of its grants is confusing
-/

namespace PgAuthz.ApplyGrants

/-! ## Tuples and entries -/

/-- A value of `jsonb`. -/
inductive Jsonb
  | null
  | object (fields : List (String × String))
  | other (text : String)
deriving DecidableEq, Repr

/-- The identity of a tuple, by the names of its types and relations, which are unique in a store. -/
structure Key where
  userType : String
  userId : String
  userRelation : Option String
  relation : String
  objectType : String
  objectId : String
deriving DecidableEq, Repr

/-- The other columns of a tuple: its condition by name, its stored context and its expiry. -/
structure Meta where
  condition : Option String
  context : Option Jsonb
  expiresAt : Option ℤ
deriving DecidableEq, Repr

/-- The rows of a store, expired ones included. -/
abbrev Rows := Key → Option Meta

/-- The texts of an entry that name a tuple; `none` is a `NULL`. -/
structure Names where
  userType : Option String
  userId : Option String
  userRelation : Option String
  relation : Option String
  objectType : Option String
  objectId : Option String
deriving DecidableEq, Repr

/-- The tuple that the texts name, unless one of them is missing. -/
def Names.key (n : Names) : Option Key := do
  return ⟨← n.userType, ← n.userId, n.userRelation, ← n.relation, ← n.objectType, ← n.objectId⟩

/-- An entry. The cast of its expiry may raise. -/
structure Entry where
  names : Names
  condition : Option String
  conditionContext : Option Jsonb
  expiresAt : Option (Option ℤ)
  context : Option Jsonb
deriving DecidableEq, Repr

/-- `CASE WHEN jsonb_typeof(e) = 'object' THEN e END` -/
def objectOnly : Option Jsonb → Option Jsonb
  | some (.object fields) => some (.object fields)
  | _ => none

/-- The columns that a grant asks for, unless the cast raises. -/
def Entry.wanted (e : Entry) : Option Meta :=
  e.expiresAt.map fun expiresAt => ⟨e.condition, objectOnly e.conditionContext, expiresAt⟩

/-- An event of sharing, with the texts of its payload. -/
structure Event where
  action : String
  revoke : Bool
  names : Names
  condition : Option String
  expiresAt : Option (Option ℤ)
deriving DecidableEq, Repr

/-- What the call reads: the times of the transaction and of the statement, `_grant_rule_check`, the
actions that sharing is recorded as and the events that are refused, the floors, and the checks of
`_delete_tuple_impl` and `write_tuple` and the guard of the rows. -/
structure Env where
  start : ℤ
  now : ℤ
  ruleCheck : Bool → Entry → Option Jsonb → Rows → List Event → Bool
  recordAs : Entry → Option String
  admits : List Event → Event → Bool
  floors : Rows → List Entry → List Entry → Bool
  deletable : Names → Bool
  writable : Key → Meta → Bool
  capped : Rows → Key → Bool

/-- The rows, and the events in the order they were recorded. -/
structure State where
  rows : Rows
  events : List Event

variable (env : Env)

/-- The row is visible at the time of the statement. -/
def Env.active (m : Meta) : Bool := m.expiresAt.all (env.now < ·)

/-! ## The first pass -/

/-- A state of a tuple in JSON. A `NULL` becomes the JSON null. -/
structure Seen where
  condition : Option String
  context : Jsonb
  expiresAt : Option ℤ
deriving DecidableEq, Repr

/-- `jsonb_build_object('condition', …, 'condition_context', …, 'expires_at', …)` -/
def Meta.seen (m : Meta) : Seen := ⟨m.condition, m.context.getD .null, m.expiresAt⟩

/-- What the database shows of a row. -/
def Env.view (row : Option Meta) : Option Seen :=
  match row with
  | some m => if env.active m then some m.seen else none
  | none => none

/-- `_active_tuple_state` -/
def Env.activeTupleState (rows : Rows) (n : Names) : Option Seen := n.key.bind fun k => env.view (rows k)

/-- The simulated state of the tuples that were met, by the texts that name them. -/
abbrev Sim := Names → Option (Option Seen)

/-- The context that an entry is decided with. -/
def entryContext (e : Entry) (context : Option Jsonb) : Option Jsonb :=
  match objectOnly e.context with
  | some c => some c
  | none => context

/-- What the tuple of an entry becomes; the cast of the expiry of a grant may raise. -/
def target (revoke : Bool) (e : Entry) : Option (Option Seen) :=
  if revoke then some none else e.wanted.map fun m => some m.seen

/-- The event that is recorded for a change of an entry, if sharing is recorded. -/
def Env.sharing (revoke : Bool) (e : Entry) : Option Event :=
  (env.recordAs e).map fun action =>
    ⟨action, revoke, e.names, if revoke then none else e.condition, if revoke then none else e.expiresAt⟩

/-- `_record_sharing`: none if the event is refused. -/
def Env.recordSharing (revoke : Bool) (e : Entry) (events : List Event) : Option (List Event) :=
  match env.sharing revoke e with
  | none => some events
  | some event => if env.admits events event then some (events ++ [event]) else none

/-- The first pass over the revocations or over the grants. -/
def foresee (rows : Rows) (context : Option Jsonb) (revoke : Bool) :
    List Entry → Sim → List Event → Option (Sim × List Event)
  | [], sim, events => some (sim, events)
  | e :: es, sim, events =>
    if env.ruleCheck revoke e (entryContext e context) rows events then do
      let cur := (sim e.names).getD (env.activeTupleState rows e.names)
      let want ← target revoke e
      let events ← (if cur = want then some events else env.recordSharing revoke e events)
      foresee rows context revoke es (Function.update sim e.names (some want)) events
    else none

/-! ## The execution -/

/-- `_delete_tuple_impl`: the rows, and whether one was deleted. A `NULL` equals no id. -/
def revokeRow (rows : Rows) (e : Entry) : Option (Rows × Bool) :=
  if env.deletable e.names then
    match e.names.key with
    | none => some (rows, false)
    | some k =>
      if (env.view (rows k)).isSome then some (Function.update rows k none, true) else some (rows, false)
  else none

/-- `write_tuple`: the rows, and whether one was inserted or changed. -/
def grantRow (rows : Rows) (e : Entry) : Option (Rows × Bool) := do
  let k ← e.names.key
  let m ← e.wanted
  if env.writable k m && m.expiresAt.all (env.start < ·) && env.capped rows k then
    if rows k = some m then return (rows, false) else return (Function.update rows k (some m), true)
  else none

/-- `_revoke_impl` and `_grant_impl`, which neither check nor record. -/
def execute (revoke : Bool) (rows : Rows) (e : Entry) : Option (Rows × Bool) :=
  if revoke then revokeRow env rows e else grantRow env rows e

/-- The second pass over the revocations or over the grants: the rows, and the count of the changes. -/
def executeAll (revoke : Bool) : List Entry → Rows → ℕ → Option (Rows × ℕ)
  | [], rows, count => some (rows, count)
  | e :: es, rows, count => do
    let (rows, changed) ← execute env revoke rows e
    executeAll revoke es rows (if changed then count + 1 else count)

/-- What a call leaves and returns. -/
structure Outcome where
  state : State
  granted : ℕ
  revoked : ℕ

/-- `apply_grants`: none if it raises. -/
def applyGrants (s : State) (grants revokes : List Entry) (context : Option Jsonb) : Option Outcome := do
  let (sim, events) ← foresee env s.rows context true revokes (fun _ => none) s.events
  let (_, events) ← foresee env s.rows context false grants sim events
  if env.floors s.rows revokes grants then
    let (rows, revoked) ← executeAll env true revokes s.rows 0
    let (rows, granted) ← executeAll env false grants rows 0
    return ⟨⟨rows, events⟩, granted, revoked⟩
  else none

/-- The state after a call. One that raises is rolled back. -/
def after (s : State) (grants revokes : List Entry) (context : Option Jsonb) : State :=
  match applyGrants env s grants revokes context with
  | some out => out.state
  | none => s

/-! ## What is expected of it -/

/-- The entries of a call in their order, with whether they revoke. -/
def batch (revokes grants : List Entry) : List (Bool × Entry) :=
  revokes.map (true, ·) ++ grants.map (false, ·)

/-- The entries one after the other: the rows, and which entries changed a tuple. -/
def sequential : List (Bool × Entry) → Rows → Option (Rows × List Bool)
  | [], rows => some (rows, [])
  | x :: xs, rows => do
    let (rows, changed) ← execute env x.1 rows x.2
    let (rows, changes) ← sequential xs rows
    return (rows, changed :: changes)

/-- The events of the entries that changed a tuple. -/
def recorded : List (Bool × Entry) → List Bool → List Event
  | x :: xs, c :: cs => (if c then (env.sharing x.1 x.2).toList else []) ++ recorded xs cs
  | _, _ => []

/-- The rows are those of the entries one after the other, the new events those of the entries that changed
a tuple, the counts their numbers, and every entry was checked on the rows before the call. -/
structure Exact (s : State) (grants revokes : List Entry) (context : Option Jsonb) (out : Outcome) : Prop where
  executed : ∃ changes, sequential env (batch revokes grants) s.rows = some (out.state.rows, changes) ∧
    out.state.events = s.events ++ recorded env (batch revokes grants) changes ∧
    out.revoked = (changes.take revokes.length).count true ∧
    out.granted = (changes.drop revokes.length).count true
  checked : ∀ x ∈ batch revokes grants, ∃ events, s.events <+: events ∧ events <+: out.state.events ∧
    env.ruleCheck x.1 x.2 (entryContext x.2 context) s.rows events

/-- A grant that asks for `m` is foreseen wrongly on the row: it is active and has the JSON null for a context
where the grant has none; or it expired after the transaction started, and is what the grant asks for. -/
def Env.confuses (revoked : Bool) (row m : Meta) : Bool :=
  if env.active row then !revoked && m.context.isNone && row == { m with context := some .null }
  else row == m

/-- A recorded grant, the first of its tuple, is foreseen wrongly. -/
def Confusing (rows : Rows) (grants revokes : List Entry) : Prop :=
  ∃ earlier g later k row m, grants = earlier ++ g :: later ∧ g.names ∉ earlier.map Entry.names ∧
    env.recordAs g ≠ none ∧ g.names.key = some k ∧ rows k = some row ∧ g.wanted = some m ∧
    env.confuses (decide (g.names ∈ revokes.map Entry.names)) row m

/-! ## The first pass foretells -/

/-- The changes that the first pass foresees. -/
def foretold (rows : Rows) (revoke : Bool) : List Entry → Sim → List Bool
  | [], _ => []
  | e :: es, sim =>
    decide (some ((sim e.names).getD (env.activeTupleState rows e.names)) ≠ target revoke e) ::
      foretold rows revoke es (Function.update sim e.names (target revoke e))

/-- The simulated state after a pass. -/
def simulated (revoke : Bool) (es : List Entry) (sim : Sim) : Sim :=
  es.foldl (fun sim e => Function.update sim e.names (target revoke e)) sim

variable {env}

theorem recordSharing_eq {revoke : Bool} {e : Entry} {events events' : List Event}
    (h : env.recordSharing revoke e events = some events') :
    events' = events ++ (env.sharing revoke e).toList := by
  simp only [Env.recordSharing] at h
  cases hs : env.sharing revoke e with
  | none =>
    rw [hs] at h
    simpa using h.symm
  | some event =>
    rw [hs] at h
    dsimp only at h
    split at h
    · simpa using h.symm
    · cases h

/-- A pass records the events of the entries that it foretells to change a tuple, and checks each of them on
the rows before the call. -/
theorem foresee_eq {rows : Rows} {context : Option Jsonb} {revoke : Bool} {es : List Entry} {sim sim' : Sim}
    {events events' : List Event} (h : foresee env rows context revoke es sim events = some (sim', events')) :
    sim' = simulated revoke es sim ∧
      events' = events ++ recorded env (es.map (revoke, ·)) (foretold env rows revoke es sim) ∧
      ∀ e ∈ es, ∃ seen, events <+: seen ∧ seen <+: events' ∧
        env.ruleCheck revoke e (entryContext e context) rows seen := by
  induction es generalizing sim events with
  | nil =>
    cases h
    exact ⟨rfl, by simp [recorded], by simp⟩
  | cons e es ih =>
    simp only [foresee, Option.bind_eq_bind] at h
    split at h
    next hc =>
      obtain ⟨want, hw, h⟩ := Option.bind_eq_some_iff.mp h
      obtain ⟨mid, hm, h⟩ := Option.bind_eq_some_iff.mp h
      have hmid : mid = events ++ recorded env [(revoke, e)]
          [decide (some ((sim e.names).getD (env.activeTupleState rows e.names)) ≠ target revoke e)] := by
        rw [hw]
        by_cases hcur : (sim e.names).getD (env.activeTupleState rows e.names) = want
        · rw [if_pos hcur] at hm
          simpa [hcur, recorded] using hm.symm
        · rw [if_neg hcur] at hm
          simpa [hcur, recorded] using recordSharing_eq hm
      rw [← hw] at h
      obtain ⟨hsim, hev, hall⟩ := ih h
      refine ⟨hsim, by rw [hev, hmid]; simp [recorded, foretold], fun x hx => ?_⟩
      have hpre : events <+: mid := by rw [hmid]; exact List.prefix_append _ _
      rcases List.mem_cons.mp hx with rfl | hx
      · refine ⟨events, List.prefix_refl _, ?_, hc⟩
        rw [hev]
        exact hpre.trans (List.prefix_append _ _)
      · obtain ⟨seen, h₁, h₂, h₃⟩ := hall x hx
        exact ⟨seen, hpre.trans h₁, h₂, h₃⟩
    next => cases h

/-! ## The second pass executes -/

theorem executeAll_eq (revoke : Bool) (es : List Entry) (rows : Rows) (count : ℕ) :
    executeAll env revoke es rows count =
      (sequential env (es.map (revoke, ·)) rows).map fun p => (p.1, count + p.2.count true) := by
  induction es generalizing rows count with
  | nil => simp [executeAll, sequential]
  | cons e es ih =>
    simp only [executeAll, sequential, List.map_cons, Option.bind_eq_bind]
    cases execute env revoke rows e with
    | none => rfl
    | some p =>
      obtain ⟨rows', changed⟩ := p
      simp only [Option.bind_some, ih]
      cases sequential env (es.map (revoke, ·)) rows' with
      | none => rfl
      | some q =>
        cases changed
        · simp
        · simp only [if_true, Option.map_some, Option.bind_some, Option.pure_def, Option.some.injEq,
            Prod.mk.injEq, true_and, List.count_cons_self]
          omega

theorem sequential_append {xs ys : List (Bool × Entry)} {rows rows₁ rows₂ : Rows} {cs ds : List Bool}
    (h₁ : sequential env xs rows = some (rows₁, cs)) (h₂ : sequential env ys rows₁ = some (rows₂, ds)) :
    sequential env (xs ++ ys) rows = some (rows₂, cs ++ ds) := by
  induction xs generalizing rows cs with
  | nil =>
    cases h₁
    exact h₂
  | cons x xs ih =>
    simp only [sequential, Option.bind_eq_bind] at h₁
    obtain ⟨⟨mid, c⟩, hx, h₁⟩ := Option.bind_eq_some_iff.mp h₁
    obtain ⟨⟨rows', cs'⟩, hxs, h₁⟩ := Option.bind_eq_some_iff.mp h₁
    cases h₁
    simp [sequential, hx, ih hxs]

theorem sequential_length {xs : List (Bool × Entry)} {rows rows' : Rows} {cs : List Bool}
    (h : sequential env xs rows = some (rows', cs)) : cs.length = xs.length := by
  induction xs generalizing rows cs with
  | nil =>
    cases h
    rfl
  | cons x xs ih =>
    simp only [sequential, Option.bind_eq_bind] at h
    obtain ⟨⟨mid, c⟩, hx, h⟩ := Option.bind_eq_some_iff.mp h
    obtain ⟨⟨rows', cs'⟩, hxs, h⟩ := Option.bind_eq_some_iff.mp h
    cases h
    simp [ih hxs]

theorem recorded_append {xs ys : List (Bool × Entry)} {cs ds : List Bool} (h : cs.length = xs.length) :
    recorded env (xs ++ ys) (cs ++ ds) = recorded env xs cs ++ recorded env ys ds := by
  induction xs generalizing cs with
  | nil =>
    rw [List.length_eq_zero_iff.mp h]
    rfl
  | cons x xs ih =>
    obtain ⟨c, cs, rfl⟩ := List.exists_cons_of_length_eq_add_one h
    simp only [List.cons_append, recorded, List.append_assoc]
    rw [ih (by simpa using h)]

/-! ## A step -/

theorem Names.key_inj {n n' : Names} {k : Key} (h : n.key = some k) (h' : n'.key = some k) : n = n' := by
  obtain ⟨ut, ui, ur, r, ot, oi⟩ := n
  obtain ⟨ut', ui', ur', r', ot', oi'⟩ := n'
  simp only [Names.key, Option.bind_eq_bind, Option.bind_eq_some_iff, Option.pure_def,
    Option.some.injEq] at h h'
  obtain ⟨_, rfl, _, rfl, _, rfl, _, rfl, _, rfl, rfl⟩ := h
  obtain ⟨_, rfl, _, rfl, _, rfl, _, rfl, _, rfl, he⟩ := h'
  cases he
  rfl

/-- The rows after a revocation, and whether there was something to revoke. -/
theorem revokeRow_eq {rows rows' : Rows} {e : Entry} {changed : Bool}
    (h : revokeRow env rows e = some (rows', changed)) :
    changed = (env.activeTupleState rows e.names).isSome ∧
      ∀ k, rows' k = if e.names.key = some k ∧ (env.view (rows k)).isSome then none else rows k := by
  simp only [revokeRow] at h
  split at h
  next =>
    cases hk : e.names.key with
    | none =>
      simp only [hk, Option.some.injEq, Prod.mk.injEq] at h
      obtain ⟨rfl, rfl⟩ := h
      simp [Env.activeTupleState, hk]
    | some k =>
      simp only [hk] at h
      cases hv : (env.view (rows k)).isSome with
      | true =>
        rw [hv, if_pos rfl] at h
        cases h
        refine ⟨by simp [Env.activeTupleState, hk, hv], fun k' => ?_⟩
        by_cases hkk : k' = k
        · subst hkk
          simp [hv]
        · simp [Function.update_of_ne hkk, Ne.symm hkk]
      | false =>
        rw [hv, if_neg (by simp)] at h
        cases h
        refine ⟨by simp [Env.activeTupleState, hk, hv], fun k' => ?_⟩
        by_cases hkk : k' = k
        · subst hkk
          simp [hv]
        · simp [Ne.symm hkk]
  next => cases h

/-- The rows after a grant, and whether it changed one. -/
theorem grantRow_eq {rows rows' : Rows} {e : Entry} {changed : Bool}
    (h : grantRow env rows e = some (rows', changed)) :
    ∃ k m, e.names.key = some k ∧ e.wanted = some m ∧ changed = decide (rows k ≠ some m) ∧
      rows' = Function.update rows k (some m) := by
  simp only [grantRow, Option.bind_eq_bind] at h
  obtain ⟨k, hk, h⟩ := Option.bind_eq_some_iff.mp h
  obtain ⟨m, hm, h⟩ := Option.bind_eq_some_iff.mp h
  refine ⟨k, m, hk, hm, ?_⟩
  split at h
  next =>
    split at h
    next hrow =>
      cases h
      exact ⟨by simp [hrow], by rw [← hrow, Function.update_eq_self]⟩
    next hrow =>
      cases h
      exact ⟨by simp [hrow], rfl⟩
  next => cases h

/-- A grant asks for an object as its context, or for none. -/
theorem Entry.wanted_seen_inj {e e' : Entry} {m m' : Meta} (h : e.wanted = some m) (h' : e'.wanted = some m')
    (hs : m.seen = m'.seen) : m = m' := by
  have plain : ∀ c : Option Jsonb, objectOnly c = none ∨ ∃ fields, objectOnly c = some (.object fields) := by
    intro c
    match c with
    | none => exact .inl rfl
    | some .null => exact .inl rfl
    | some (.object fields) => exact .inr ⟨fields, rfl⟩
    | some (.other _) => exact .inl rfl
  obtain ⟨x, -, rfl⟩ := Option.map_eq_some_iff.mp h
  obtain ⟨x', -, rfl⟩ := Option.map_eq_some_iff.mp h'
  simp only [Meta.seen, Seen.mk.injEq] at hs
  obtain ⟨hc, hx, he⟩ := hs
  rcases plain e.conditionContext with h₁ | ⟨f₁, h₁⟩ <;>
    rcases plain e'.conditionContext with h₂ | ⟨f₂, h₂⟩ <;> simp_all

theorem sequential_cons {x : Bool × Entry} {xs : List (Bool × Entry)} {rows rows' : Rows} {cs : List Bool}
    (h : sequential env (x :: xs) rows = some (rows', cs)) :
    ∃ mid c ds, execute env x.1 rows x.2 = some (mid, c) ∧ sequential env xs mid = some (rows', ds) ∧
      cs = c :: ds := by
  simp only [sequential, Option.bind_eq_bind] at h
  obtain ⟨⟨mid, c⟩, hx, h⟩ := Option.bind_eq_some_iff.mp h
  obtain ⟨⟨rows', ds⟩, hxs, h⟩ := Option.bind_eq_some_iff.mp h
  cases h
  exact ⟨mid, c, ds, hx, hxs, rfl⟩

/-! ## The revocations -/

/-- The simulated state shows what the rows show. -/
def Shows (env : Env) (rows₀ : Rows) (sim : Sim) (rows : Rows) : Prop :=
  ∀ n, (sim n).getD (env.activeTupleState rows₀ n) = env.activeTupleState rows n

theorem Shows.revoke {rows₀ rows rows' : Rows} {sim : Sim} {e : Entry} {changed : Bool}
    (hs : Shows env rows₀ sim rows) (h : revokeRow env rows e = some (rows', changed)) :
    Shows env rows₀ (Function.update sim e.names (target true e)) rows' := by
  obtain ⟨-, hrows⟩ := revokeRow_eq h
  intro n
  by_cases hn : n = e.names
  · subst hn
    rw [Function.update_self]
    simp only [target, if_true, Option.getD_some, Env.activeTupleState]
    cases hk : e.names.key with
    | none => rfl
    | some k =>
      rw [Option.bind_some, hrows k]
      cases hv : env.view (rows k) with
      | none => simp [hv]
      | some seen => simp [hk, Env.view]
  · rw [Function.update_of_ne hn, hs n]
    simp only [Env.activeTupleState]
    cases hk : n.key with
    | none => rfl
    | some k =>
      rw [Option.bind_some, Option.bind_some, hrows k, if_neg]
      rintro ⟨he, -⟩
      exact hn (Names.key_inj hk he)

/-- **Every change of a revocation is foretold**, also of a tuple that another one revoked before. -/
theorem revocations_foretold {rows₀ rows rows' : Rows} {es : List Entry} {sim : Sim} {cs : List Bool}
    (hs : Shows env rows₀ sim rows) (h : sequential env (es.map (true, ·)) rows = some (rows', cs)) :
    cs = foretold env rows₀ true es sim ∧ Shows env rows₀ (simulated true es sim) rows' := by
  induction es generalizing sim rows cs with
  | nil =>
    cases h
    exact ⟨rfl, hs⟩
  | cons e es ih =>
    obtain ⟨mid, c, ds, hx, hxs, rfl⟩ := sequential_cons h
    have hx : revokeRow env rows e = some (mid, c) := by simpa [execute] using hx
    obtain ⟨hd, hs'⟩ := ih (hs.revoke hx) hxs
    refine ⟨?_, hs'⟩
    rw [hd, (revokeRow_eq hx).1]
    simp only [foretold, List.cons.injEq, and_true, hs e.names, target, if_true, ne_eq, Option.some.injEq]
    cases env.activeTupleState rows e.names <;> simp

/-- The rows after the revocations: those of the active tuples that they name are gone. -/
theorem revocations_rows {rows rows' : Rows} {es : List Entry} {cs : List Bool}
    (h : sequential env (es.map (true, ·)) rows = some (rows', cs)) (k : Key) :
    rows' k = if (∃ e ∈ es, e.names.key = some k) ∧ (env.view (rows k)).isSome then none else rows k := by
  induction es generalizing rows cs with
  | nil =>
    cases h
    simp
  | cons e es ih =>
    obtain ⟨mid, c, ds, hx, hxs, rfl⟩ := sequential_cons h
    have hx : revokeRow env rows e = some (mid, c) := by simpa [execute] using hx
    have hmid := (revokeRow_eq hx).2 k
    rw [ih hxs]
    by_cases hv : (env.view (rows k)).isSome
    · by_cases he : e.names.key = some k
      · rw [if_pos ⟨he, hv⟩] at hmid
        rw [hmid]
        simp [he, hv]
      · rw [if_neg fun hc => he hc.1] at hmid
        rw [hmid]
        simp [he]
    · rw [if_neg fun hc => hv hc.2] at hmid
      rw [hmid]
      simp [hv]

/-! ## The grants -/

/-- A tuple that no grant met is shown as its row, which is as after the revocations. One that was granted has
the row that its last grant asked for, and is shown so. -/
structure Tracks (env : Env) (rows₀ rows₁ : Rows) (past : List Names) (sim : Sim) (rows : Rows) : Prop where
  unmet : ∀ n k, n.key = some k → n ∉ past →
    (sim n).getD (env.activeTupleState rows₀ n) = env.view (rows₁ k) ∧ rows k = rows₁ k
  met : ∀ n ∈ past, ∃ k e m, n.key = some k ∧ Entry.wanted e = some m ∧ rows k = some m ∧
    sim n = some (some m.seen)

/-- The first grant of a tuple is foreseen wrongly. -/
def Errs (env : Env) (rows₁ : Rows) (e : Entry) : Prop :=
  ∃ k row m, e.names.key = some k ∧ rows₁ k = some row ∧ e.wanted = some m ∧
    ((env.active row ∧ row.seen = m.seen ∧ row ≠ m) ∨ (¬env.active row ∧ row = m))

theorem Tracks.grant {rows₀ rows₁ rows rows' : Rows} {past : List Names} {sim : Sim} {e : Entry} {changed : Bool}
    (ht : Tracks env rows₀ rows₁ past sim rows) (h : grantRow env rows e = some (rows', changed)) :
    Tracks env rows₀ rows₁ (e.names :: past) (Function.update sim e.names (target false e)) rows' := by
  obtain ⟨k, m, hk, hm, -, rfl⟩ := grantRow_eq h
  have htarget : target false e = some (some m.seen) := by simp [target, hm]
  constructor
  · intro n k' hn hp
    have hne : n ≠ e.names := fun he => hp (he ▸ List.mem_cons_self)
    have hkk : k' ≠ k := fun he => hne (Names.key_inj (he ▸ hn) hk)
    rw [Function.update_of_ne hne, Function.update_of_ne hkk]
    exact ht.unmet n k' hn fun hmem => hp (List.mem_cons_of_mem _ hmem)
  · intro n hn
    by_cases hne : n = e.names
    · subst hne
      exact ⟨k, e, m, hk, hm, Function.update_self .., by rw [Function.update_self, htarget]⟩
    · obtain ⟨k', e', m', hk', hm', hr', hs'⟩ := ht.met n ((List.mem_cons.mp hn).resolve_left hne)
      have hkk : k' ≠ k := fun he => hne (Names.key_inj (he ▸ hk') hk)
      exact ⟨k', e', m', hk', hm', by rwa [Function.update_of_ne hkk], by rwa [Function.update_of_ne hne]⟩

/-- **Whether a grant changes its tuple is foretold**, except where the first grant of a tuple errs. -/
theorem Tracks.foretold_iff {rows₀ rows₁ rows rows' : Rows} {past : List Names} {sim : Sim} {e : Entry}
    {changed : Bool} (ht : Tracks env rows₀ rows₁ past sim rows)
    (h : grantRow env rows e = some (rows', changed)) :
    decide (some ((sim e.names).getD (env.activeTupleState rows₀ e.names)) ≠ target false e) = changed ↔
      ¬(e.names ∉ past ∧ Errs env rows₁ e) := by
  obtain ⟨k, m, hk, hm, rfl, -⟩ := grantRow_eq h
  have htarget : target false e = some (some m.seen) := by simp [target, hm]
  rw [htarget]
  by_cases hp : e.names ∈ past
  · obtain ⟨k', e', m', hk', hm', hr', hs'⟩ := ht.met _ hp
    obtain rfl : k' = k := Option.some.inj (hk'.symm.trans hk)
    -- both rows were asked for by grants, so JSON tells them apart
    have hinj : m'.seen = m.seen ↔ m' = m := ⟨Entry.wanted_seen_inj hm' hm, fun he => he ▸ rfl⟩
    simp [hs', hr', hp, hinj]
  · obtain ⟨hcur, hrow⟩ := ht.unmet _ _ hk hp
    rw [hcur, hrow]
    cases hr : rows₁ k with
    | none => simp [Env.view, Errs, hk, hr]
    | some row =>
      have herr : Errs env rows₁ e ↔
          (env.active row ∧ row.seen = m.seen ∧ row ≠ m) ∨ (¬env.active row ∧ row = m) := by
        simp [Errs, hk, hr, hm]
      rw [herr]
      by_cases ha : env.active row
      · by_cases hrm : row = m
        · subst hrm
          simp [Env.view, ha, hp]
        · simp [Env.view, ha, hp, hrm]
      · simp [Env.view, ha, hp]

/-- One of the first grants of their tuples is recorded and errs. -/
def AnyErrs (env : Env) (rows₁ : Rows) : List Names → List Entry → Prop
  | _, [] => False
  | past, e :: es => (e.names ∉ past ∧ env.recordAs e ≠ none ∧ Errs env rows₁ e) ∨
    AnyErrs env rows₁ (e.names :: past) es

theorem anyErrs_iff {rows₁ : Rows} {past : List Names} {es : List Entry} :
    AnyErrs env rows₁ past es ↔ ∃ earlier g later, es = earlier ++ g :: later ∧
      g.names ∉ earlier.map Entry.names ∧ g.names ∉ past ∧ env.recordAs g ≠ none ∧ Errs env rows₁ g := by
  induction es generalizing past with
  | nil => simp [AnyErrs]
  | cons e es ih =>
    simp only [AnyErrs, ih]
    constructor
    · rintro (⟨hp, hr, he⟩ | ⟨earlier, g, later, rfl, h₁, h₂, hr, he⟩)
      · exact ⟨[], e, es, rfl, by simp, hp, hr, he⟩
      · rw [List.mem_cons, not_or] at h₂
        exact ⟨e :: earlier, g, later, rfl, by simpa [h₂.1] using h₁, h₂.2, hr, he⟩
    · rintro ⟨earlier, g, later, hes, h₁, h₂, hr, he⟩
      cases earlier with
      | nil =>
        cases hes
        exact .inl ⟨h₂, hr, he⟩
      | cons x earlier =>
        cases hes
        rw [List.map_cons, List.mem_cons, not_or] at h₁
        exact .inr ⟨earlier, g, later, rfl, h₁.2, by simp [h₁.1, h₂], hr, he⟩

/-- The events of one tuple. -/
def ofNames (n : Names) (events : List Event) : List Event := events.filter (·.names = n)

theorem ofNames_recorded_of_ne {n : Names} {x : Bool × Entry} {xs : List (Bool × Entry)} {c : Bool}
    {cs : List Bool} (hn : x.2.names ≠ n) :
    ofNames n (recorded env (x :: xs) (c :: cs)) = ofNames n (recorded env xs cs) := by
  have hnil : ofNames n (if c then (env.sharing x.1 x.2).toList else []) = [] := by
    cases c with
    | false => rfl
    | true => cases hr : env.recordAs x.2 <;> simp [ofNames, Env.sharing, hr, hn]
  rw [recorded, ofNames, List.filter_append]
  exact (congrArg (· ++ _) hnil).trans (List.nil_append _)

theorem grantRow_of_execute {rows rows' : Rows} {e : Entry} {c : Bool}
    (h : execute env (false, e).1 rows (false, e).2 = some (rows', c)) : grantRow env rows e = some (rows', c) := by
  simpa [execute] using h

/-- The events of a tuple that was granted before are all foretold. -/
theorem ofNames_grants {rows₀ rows₁ rows rows' : Rows} {past : List Names} {es : List Entry} {sim : Sim}
    {cs : List Bool} {n : Names} (ht : Tracks env rows₀ rows₁ past sim rows)
    (h : sequential env (es.map (false, ·)) rows = some (rows', cs)) (hn : n ∈ past) :
    ofNames n (recorded env (es.map (false, ·)) (foretold env rows₀ false es sim)) =
      ofNames n (recorded env (es.map (false, ·)) cs) := by
  induction es generalizing past sim rows cs with
  | nil => rfl
  | cons e es ih =>
    obtain ⟨mid, c, ds, hx, hxs, rfl⟩ := sequential_cons h
    have hx := grantRow_of_execute hx
    have htail := ih (ht.grant hx) hxs (List.mem_cons_of_mem _ hn)
    rw [foretold, List.map_cons]
    by_cases he : e.names = n
    · subst he
      rw [(ht.foretold_iff hx).mpr fun hc => hc.1 hn]
      rw [recorded, recorded, ofNames, ofNames, List.filter_append, List.filter_append]
      exact congrArg (_ ++ ·) htail
    · rw [ofNames_recorded_of_ne he, ofNames_recorded_of_ne he, htail]

/-- **The events of the grants are those of the grants that change a tuple**, if no first grant of a tuple
errs. -/
theorem recorded_grants {rows₀ rows₁ rows rows' : Rows} {past : List Names} {es : List Entry} {sim : Sim}
    {cs : List Bool} (ht : Tracks env rows₀ rows₁ past sim rows)
    (h : sequential env (es.map (false, ·)) rows = some (rows', cs)) (hno : ¬AnyErrs env rows₁ past es) :
    recorded env (es.map (false, ·)) (foretold env rows₀ false es sim) =
      recorded env (es.map (false, ·)) cs := by
  induction es generalizing past sim rows cs with
  | nil => rfl
  | cons e es ih =>
    obtain ⟨mid, c, ds, hx, hxs, rfl⟩ := sequential_cons h
    have hx := grantRow_of_execute hx
    rw [AnyErrs, not_or] at hno
    rw [foretold, List.map_cons, recorded, recorded, ih (ht.grant hx) hxs hno.2]
    cases hr : env.recordAs e with
    | none => simp [Env.sharing, hr]
    | some action =>
      rw [(ht.foretold_iff hx).mpr fun hc => hno.1 ⟨hc.1, by simp [hr], hc.2⟩]

/-- An error is visible in the events of the tuple it is about: there is one event more, or less. -/
theorem recorded_grants_ne {rows₀ rows₁ rows rows' : Rows} {past : List Names} {es : List Entry} {sim : Sim}
    {cs : List Bool} (ht : Tracks env rows₀ rows₁ past sim rows)
    (h : sequential env (es.map (false, ·)) rows = some (rows', cs)) (herr : AnyErrs env rows₁ past es) :
    ∃ n, n ∉ past ∧ ofNames n (recorded env (es.map (false, ·)) (foretold env rows₀ false es sim)) ≠
      ofNames n (recorded env (es.map (false, ·)) cs) := by
  induction es generalizing past sim rows cs with
  | nil => exact absurd herr id
  | cons e es ih =>
    obtain ⟨mid, c, ds, hx, hxs, rfl⟩ := sequential_cons h
    have hx := grantRow_of_execute hx
    have ht' := ht.grant hx
    rw [foretold, List.map_cons]
    rcases herr with ⟨hp, hr, he⟩ | herr
    · refine ⟨e.names, hp, fun hc => ?_⟩
      -- the later events of the tuple agree, so the first ones would have to
      have htail := ofNames_grants ht' hxs List.mem_cons_self
      rw [recorded, recorded, ofNames, ofNames, List.filter_append, List.filter_append] at hc
      have hhead := List.append_left_inj _ |>.mp (hc.trans (congrArg (_ ++ ·) htail.symm))
      obtain ⟨action, ha⟩ := Option.ne_none_iff_exists'.mp hr
      have hne := mt (ht.foretold_iff hx).mp (not_not_intro ⟨hp, he⟩)
      generalize decide (some ((sim e.names).getD (env.activeTupleState rows₀ e.names)) ≠ target false e) = p
        at hne hhead
      cases p <;> cases c <;> simp [Env.sharing, ha] at hne hhead
    · obtain ⟨n, hn, hne⟩ := ih ht' hxs herr
      rw [List.mem_cons, not_or] at hn
      refine ⟨n, hn.2, ?_⟩
      rwa [ofNames_recorded_of_ne (Ne.symm hn.1), ofNames_recorded_of_ne (Ne.symm hn.1)]

/-! ## The call -/

/-- JSON does not tell two rows apart if the one has the JSON null for a context, and the other none. -/
theorem seen_eq_iff {e : Entry} {m : Meta} (h : e.wanted = some m) (row : Meta) :
    (row.seen = m.seen ∧ row ≠ m) ↔ m.context = none ∧ row = { m with context := some .null } := by
  obtain ⟨condition, context, expiresAt⟩ := row
  obtain ⟨x, -, rfl⟩ := Option.map_eq_some_iff.mp h
  simp only [Meta.seen, Seen.mk.injEq, ne_eq, Meta.mk.injEq]
  match e.conditionContext with
  | none | some .null | some (.other _) => cases context <;> simp [objectOnly]
  | some (.object fields) => cases context <;> simp [objectOnly]

theorem errs_iff {rows rows₁ : Rows} {revokes : List Entry} {cs : List Bool} {g : Entry}
    (h : sequential env (revokes.map (true, ·)) rows = some (rows₁, cs)) :
    Errs env rows₁ g ↔ ∃ k row m, g.names.key = some k ∧ rows k = some row ∧ g.wanted = some m ∧
      env.confuses (decide (g.names ∈ revokes.map Entry.names)) row m := by
  unfold Errs
  constructor
  · rintro ⟨k, row, m, hk, hr, hm, herr⟩
    rw [revocations_rows h k] at hr
    split at hr
    next => cases hr
    next hno =>
      refine ⟨k, row, m, hk, hr, hm, ?_⟩
      rcases herr with ⟨ha, he⟩ | ⟨ha, rfl⟩
      · have hnot : g.names ∉ revokes.map Entry.names := fun hmem => by
          obtain ⟨e, he, hn⟩ := List.mem_map.mp hmem
          exact hno ⟨⟨e, he, by rw [hn, hk]⟩, by simp [Env.view, hr, ha]⟩
        obtain ⟨hc, hrow⟩ := (seen_eq_iff hm row).mp he
        rw [Env.confuses, if_pos ha, decide_eq_false hnot, hc, ← hrow]
        simp
      · rw [Env.confuses, if_neg ha]
        simp
  · rintro ⟨k, row, m, hk, hr, hm, hc⟩
    unfold Env.confuses at hc
    split at hc
    next ha =>
      simp only [Bool.and_eq_true, Bool.not_eq_true', decide_eq_false_iff_not, Option.isNone_iff_eq_none,
        beq_iff_eq] at hc
      obtain ⟨⟨hnot, hcontext⟩, hrow⟩ := hc
      refine ⟨k, row, m, hk, ?_, hm, .inl ⟨ha, (seen_eq_iff hm row).mpr ⟨hcontext, hrow⟩⟩⟩
      rw [revocations_rows h k, if_neg, hr]
      rintro ⟨⟨e, he, hn⟩, -⟩
      exact hnot (List.mem_map.mpr ⟨e, he, Names.key_inj hn hk⟩)
    next ha =>
      refine ⟨k, row, m, hk, ?_, hm, .inr ⟨ha, beq_iff_eq.mp hc⟩⟩
      -- an expired row is not deleted
      rw [revocations_rows h k, if_neg, hr]
      rintro ⟨-, hv⟩
      simp [Env.view, hr, ha] at hv

theorem applyGrants_eq {s : State} {grants revokes : List Entry} {context : Option Jsonb} {out : Outcome}
    (h : applyGrants env s grants revokes context = some out) :
    ∃ rows₁ cs ds,
      sequential env (revokes.map (true, ·)) s.rows = some (rows₁, cs) ∧
      sequential env (grants.map (false, ·)) rows₁ = some (out.state.rows, ds) ∧
      out.revoked = cs.count true ∧ out.granted = ds.count true ∧
      out.state.events = s.events ++ recorded env (revokes.map (true, ·)) cs ++
        recorded env (grants.map (false, ·))
          (foretold env s.rows false grants (simulated true revokes fun _ => none)) ∧
      ∀ x ∈ batch revokes grants, ∃ events, s.events <+: events ∧ events <+: out.state.events ∧
        env.ruleCheck x.1 x.2 (entryContext x.2 context) s.rows events := by
  simp only [applyGrants, Option.bind_eq_bind] at h
  obtain ⟨⟨sim, mid⟩, hrevokes, h⟩ := Option.bind_eq_some_iff.mp h
  obtain ⟨⟨sim', events⟩, hgrants, h⟩ := Option.bind_eq_some_iff.mp h
  dsimp only at hgrants h
  split at h
  next =>
    obtain ⟨⟨rows₁, revoked⟩, hrev, h⟩ := Option.bind_eq_some_iff.mp h
    obtain ⟨⟨rows₂, granted⟩, hgr, h⟩ := Option.bind_eq_some_iff.mp h
    cases h
    rw [executeAll_eq] at hrev hgr
    obtain ⟨⟨rows₁', cs⟩, hcs, he⟩ := Option.map_eq_some_iff.mp hrev
    cases he
    obtain ⟨⟨rows₂', ds⟩, hds, he⟩ := Option.map_eq_some_iff.mp hgr
    cases he
    obtain ⟨rfl, hmid, hall₁⟩ := foresee_eq hrevokes
    obtain ⟨-, hevents, hall₂⟩ := foresee_eq hgrants
    have hshows : Shows env s.rows (fun _ => none) s.rows := fun n => rfl
    rw [← (revocations_foretold hshows hcs).1] at hmid
    refine ⟨rows₁', cs, ds, hcs, hds, by simp, by simp, by rw [hevents, hmid], fun x hx => ?_⟩
    rcases List.mem_append.mp hx with hx | hx
    · obtain ⟨e, he, rfl⟩ := List.mem_map.mp hx
      obtain ⟨seen, h₁, h₂, h₃⟩ := hall₁ e he
      exact ⟨seen, h₁, h₂.trans (hevents ▸ List.prefix_append _ _), h₃⟩
    · obtain ⟨e, he, rfl⟩ := List.mem_map.mp hx
      obtain ⟨seen, h₁, h₂, h₃⟩ := hall₂ e he
      exact ⟨seen, (hmid ▸ List.prefix_append _ _ : s.events <+: mid).trans h₁, h₂, h₃⟩
  next => cases h

/-- Sharing is recorded, and nothing is refused. -/
def recording : Env where
  start := 0
  now := 0
  ruleCheck := fun _ _ _ _ _ => true
  recordAs := fun _ => some "share"
  admits := fun _ _ => true
  floors := fun _ _ _ => true
  deletable := fun _ => true
  writable := fun _ _ => true
  capped := fun _ _ => true

/-- `{"user_type":"user","user_id":"alice","relation":"viewer","object_type":"doc","object_id":"plan",
"expires_at":…}` -/
def viewerGrant : Entry :=
  ⟨⟨some "user", some "alice", none, some "viewer", some "doc", some "plan"⟩, none, none, some (some 100), none⟩

/-- The tuple was written by `write_tuples_jsonb` from an element with `"condition_context": null`. -/
def nullContext : State where
  rows := fun k =>
    if k = ⟨"user", "alice", none, "viewer", "doc", "plan"⟩ then some ⟨none, some .null, some 100⟩ else none
  events := []

end PgAuthz.ApplyGrants
