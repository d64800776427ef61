import PgAuthz.Console.Namespaces

/-!
# Renaming a namespace

A namespace is the set of types that name it, and the object of the console's store that its roles are on. A rename
gives the types the new name and moves the tuples from the old object to the new one. It reads four columns of each
tuple and writes it again from them: a condition and an expiry are left behind. It writes the link of the new
namespace into the store, and leaves the link of the old one.

So what a person may do after a rename is what they might do before it if every tuple on the old namespace held for
good, and the namespace and its store were linked both ways.

## Main definitions

* `RoleRow`, `live`: the rows of the console's store, and the tuples that hold for a request at an instant
* `handleNamespaceRename`: the rename
* `Preserves`: what a rename should leave as it is
* `Carried`: the condition on the state before it

## Main results

* `check_map`: a right is one on the renamed object
* `rename_preserves_iff`: a rename preserves the access exactly if the tuples are carried over
-/

namespace PgAuthz.Console.Renaming

/-! ## The state -/

/-- A row of the console's store. -/
structure RoleRow (Cond : Type) where
  key : RoleTuple
  condition : Option Cond
  expiresAt : Option ℤ
deriving DecidableEq

/-- The conditions of the console's store: which of them hold for a request at an instant. The console asks without a
context. -/
structure Conditions (Cond Ctx : Type) where
  holds : Cond → Ctx → ℤ → Bool
  noContext : Ctx

/-- The rows of the console's store, and a store that it manages. -/
structure ConsoleState (Cond : Type) where
  rows : Keyed (@RoleRow.key Cond)
  store : ManagedStore

variable {Cond Ctx : Type}

/-- The row policy: rows that have expired are hidden. -/
def RoleRow.visible (g : RoleRow Cond) (now : ℤ) : Bool := g.expiresAt.all (now < ·)

/-- A row holds for a request at an instant. -/
def RoleRow.isLive (env : Conditions Cond Ctx) (ctx : Ctx) (now : ℤ) (g : RoleRow Cond) : Bool :=
  g.visible now && g.condition.all (env.holds · ctx now)

/-- The tuples that hold for a request at an instant. -/
def live (env : Conditions Cond Ctx) (ctx : Ctx) (now : ℤ) (st : ConsoleState Cond) : List RoleTuple :=
  (st.rows.rows.filter (·.isLive env ctx now)).map RoleRow.key

/-- A row that holds for good. -/
def plain (t : RoleTuple) : RoleRow Cond := ⟨t, none, none⟩

/-! ## The rename -/

section Handler

variable (cfg : Config) (env : Conditions Cond Ctx) (now : ℤ)

/-- `write_tuple` without a condition and without an expiry. -/
def writeRow (rows : Keyed (@RoleRow.key Cond)) (t : RoleTuple) : Except StoreRefusal (Keyed (@RoleRow.key Cond)) :=
  let fs := facets t.object.typ t.relation
  if t.object.id = "*" ∨ (t.user.id = "*" ∧ t.user.relation.isSome) then .error (.console .wildcard)
  else if fs ≠ [] ∧ (t.user.id = "*" ∨ (t.user.typ, t.user.relation) ∉ fs) then
    .error (.console (.restriction t.relation t.object))
  else .ok (rows.upsert (plain t))

/-- `delete_tuple`, of a row that is visible. -/
def deleteRow (rows : Keyed (@RoleRow.key Cond)) (t : RoleTuple) : Except StoreRefusal (Keyed (@RoleRow.key Cond)) :=
  if (minDirect t.object.typ t.relation).any fun least =>
      rows.rows.any (fun g => g.key = t && g.visible now) &&
        (rows.rows.countP fun g => g.key.gives t.relation t.object && g.visible now) - 1 < least then
    .error (.console (.floor t.relation t.object))
  else .ok (rows.filter fun g => !(g.key = t && g.visible now))

/-- One tuple of a renamed namespace is deleted and written again under the new name. -/
def moveRow (target : Obj) (rows : Keyed (@RoleRow.key Cond)) (t : RoleTuple) :
    Except StoreRefusal (Keyed (@RoleRow.key Cond)) := do
  writeRow (← deleteRow now rows t) { t with object := target }

/-- The rows on an object that the console sees. -/
def rowsOn (object : Obj) (st : ConsoleState Cond) : List (RoleRow Cond) :=
  st.rows.rows.filter fun g => g.key.object = object && g.visible now

/-- The types of a namespace. -/
def typesOf (ns : String) (st : ConsoleState Cond) : List TypeRow := st.store.types.rows.filter (·.ns = some ns)

/-- `handleNamespaceRename`. -/
def handleNamespaceRename (st : ConsoleState Cond) (p : Principal) (s ns renamed : String) :
    Except StoreRefusal (ConsoleState Cond) := do
  let T := live env env.noContext now st
  guardOr (.console (.badRequest "invalid store name")) (validName s)
  guardOr (.console (.forbidden .canEditModel ⟨.store, s⟩)) (canQ cfg T p .canEditModel ⟨.store, s⟩)
  guardOr (.console (.badRequest "namespace names must be identifiers (letters, digits, _ . -) and differ"))
    (validNamespace ns ∧ validNamespace renamed ∧ ns ≠ renamed)
  guardOr (.console (.forbidden .canManageAccess ⟨.store, s⟩)) (canQ cfg T p .canManageAccess ⟨.store, s⟩)
  let store ← ((typesOf ns st).foldlM (fun m t => setTypeNamespace m t.name renamed) st.store).mapError
    StoreRefusal.engine
  -- the condition and the expiry of a row are not read
  let roles := (rowsOn now (nsObject s ns) st).map RoleRow.key
  let rows ← roles.foldlM (moveRow now (nsObject s renamed)) st.rows
  if roles = [] then return ⟨rows, store⟩
  let rows ← deleteRow now rows (.link ⟨.store, s⟩ .store (nsObject s ns))
  let rows ← (namespaceLinks s renamed).foldlM writeRow rows
  return ⟨rows, store⟩

end Handler

/-! ## What a rename should do -/

/-- `storeCapabilities`. -/
def storeCapabilities : List Rel :=
  [.canView, .canRunTests, .canEditModel, .canPublish, .canRollout, .canGrant, .canViewAudit, .canExport,
    .canViewDecisions, .canManageAccess, .canTestOthers, .canTestExplainFull, .canTestSearch, .canTestHistory]

/-- `namespaceCapabilities`. -/
def namespaceCapabilities : List Rel := [.canView, .canEditModel, .canGrant]

/-- A person, or a technical user. -/
def IsPerson (p : Principal) : Prop := p.typ = .user ∨ p.typ = .serviceAccount

/-- A namespace without types and without roles: at most its links are left. -/
structure Unused (st : ConsoleState Cond) (s ns : String) : Prop where
  types : ∀ t ∈ st.store.types, t.ns ≠ some ns
  rows : ∀ g ∈ st.rows, g.key.object = nsObject s ns ∨ g.key.user.obj = nsObject s ns → g.key ∈ namespaceLinks s ns

section Statement

variable (cfg : Config) (env : Conditions Cond Ctx) (now : ℤ) (s ns renamed : String)

/-- **A rename preserves the access**: the types have the new name, no tuple names the old one, and at every later
instant each person may do for each request what they might have done under the old name. -/
structure Preserves (st st' : ConsoleState Cond) : Prop where
  types : ∀ t ∈ st.store.types, t.ns = some ns → ∃ t' ∈ st'.store.types, t'.name = t.name ∧ t'.ns = some renamed
  gone : ∀ g ∈ st'.rows, g.key.object ≠ nsObject s ns ∧ g.key.user.obj ≠ nsObject s ns
  onStore : ∀ p, IsPerson p → ∀ ctx later, now ≤ later → ∀ r ∈ storeCapabilities,
    canQ cfg (live env ctx later st') p r ⟨.store, s⟩ = canQ cfg (live env ctx later st) p r ⟨.store, s⟩
  onNamespace : ∀ p, IsPerson p → ∀ ctx later, now ≤ later → ∀ r ∈ namespaceCapabilities,
    canQ cfg (live env ctx later st') p r (nsObject s renamed) = canQ cfg (live env ctx later st) p r (nsObject s ns)

/-- The tuples that hold, with those on a namespace for good and its links. -/
def permanent (ctx : Ctx) (later : ℤ) (st : ConsoleState Cond) : List RoleTuple :=
  live env ctx later st ++ ((rowsOn now (nsObject s ns) st).map RoleRow.key ++ namespaceLinks s ns)

/-- **The tuples on a namespace are carried over by a rename.** Nothing names the namespace as its user and no row on
it has expired. If there are no tuples on it, nobody has a capability on the new name. If there are, they give nobody
more if they hold for good and both links are there. -/
structure Carried (st : ConsoleState Cond) : Prop where
  unlinked : ∀ g ∈ st.rows, g.key.user.obj ≠ nsObject s ns
  unexpired : ∀ g ∈ st.rows, g.key.object = nsObject s ns → g.visible now = true
  empty : rowsOn now (nsObject s ns) st = [] → ∀ p, IsPerson p → ∀ ctx later, now ≤ later →
    ∀ r ∈ namespaceCapabilities, canQ cfg (live env ctx later st) p r (nsObject s renamed) = false
  onStore : rowsOn now (nsObject s ns) st ≠ [] → ∀ p, IsPerson p → ∀ ctx later, now ≤ later →
    ∀ r ∈ storeCapabilities, canQ cfg (permanent env now s ns ctx later st) p r ⟨.store, s⟩ =
      canQ cfg (live env ctx later st) p r ⟨.store, s⟩
  onNamespace : rowsOn now (nsObject s ns) st ≠ [] → ∀ p, IsPerson p → ∀ ctx later, now ≤ later →
    ∀ r ∈ namespaceCapabilities, canQ cfg (permanent env now s ns ctx later st) p r (nsObject s ns) =
      canQ cfg (live env ctx later st) p r (nsObject s ns)

end Statement

/-! ## Renamed objects -/

/-- A tuple with other objects. -/
def mapTuple (f : Obj → Obj) (t : RoleTuple) : RoleTuple :=
  ⟨⟨(f t.user.obj).typ, (f t.user.obj).id, t.user.relation⟩, t.relation, f t.object⟩

theorem mapTuple_user_obj (f : Obj → Obj) (t : RoleTuple) : (mapTuple f t).user.obj = f t.user.obj := rfl

theorem mapTuple_of_fixed {f : Obj → Obj} {t : RoleTuple} (huser : f t.user.obj = t.user.obj) :
    mapTuple f t = { t with object := f t.object } := by
  rw [mapTuple, huser]
  rfl

/-- **A right is one on the renamed object**, if every tuple is there with its objects renamed. -/
theorem check_map {T T' : List RoleTuple} {f : Obj → Obj} (htyp : ∀ o, (f o).typ = o.typ)
    (hT : ∀ t ∈ T, mapTuple f t ∈ T') {who : User} (hwho : f who.obj = who.obj) {depth : ℕ} {relation : Rel}
    {object : Obj} (h : check T who depth relation object = true) : check T' who depth relation (f object) = true := by
  induction depth generalizing relation object with
  | zero => cases h
  | succ depth ih =>
    rw [check_succ] at h ⊢
    rw [htyp]
    obtain ⟨hrule, t, ht, hr, rfl, h⟩ | ⟨r, hrule, h⟩ | ⟨l, r, hrule, t, ht, hr, rfl, hn, h⟩ := h
    · refine .inl ⟨hrule, mapTuple f t, hT t ht, hr, rfl, ?_⟩
      rcases h with rfl | ⟨r, hur, h⟩
      · exact .inl (by rw [mapTuple, hwho]; rfl)
      · exact .inr ⟨r, hur, ih h⟩
    · exact .inr (.inl ⟨r, hrule, ih h⟩)
    · exact .inr (.inr ⟨l, r, hrule, mapTuple f t, hT t ht, hr, rfl, hn, ih h⟩)

/-! ## The rows after a rename -/

section Rows

variable {now : ℤ} {rows rows' : Keyed (@RoleRow.key Cond)} {g : RoleRow Cond} {t : RoleTuple}

theorem mem_writeRow (h : writeRow rows t = .ok rows') : g ∈ rows' ↔ (g ∈ rows ∧ g.key ≠ t) ∨ g = plain t := by
  unfold writeRow at h
  dsimp only at h
  split at h
  · cases h
  · split at h
    · cases h
    · cases h
      rw [Keyed.mem_upsert]
      rfl

theorem mem_deleteRow (h : deleteRow now rows t = .ok rows') :
    g ∈ rows' ↔ g ∈ rows ∧ ¬ (g.key = t ∧ g.visible now = true) := by
  unfold deleteRow at h
  split at h
  · cases h
  · cases h
    rw [Keyed.mem_filter, Bool.not_eq_true', ← Bool.not_eq_true, Bool.and_eq_true, decide_eq_true_iff]

theorem mem_writeRows {ts : List RoleTuple} (h : ts.foldlM writeRow rows = .ok rows') :
    g ∈ rows' ↔ (g ∈ rows ∧ g.key ∉ ts) ∨ ∃ t ∈ ts, g = plain t := by
  induction ts generalizing rows with
  | nil =>
    cases h
    simp
  | cons t ts ih =>
    rw [List.foldlM_cons, bind_eq_ok] at h
    obtain ⟨rows₁, hwrite, h⟩ := h
    rw [ih h, mem_writeRow hwrite]
    constructor
    · rintro (⟨⟨hg, hne⟩ | rfl, hnot⟩ | ⟨u, hu, rfl⟩)
      · exact .inl ⟨hg, by simpa using ⟨hne, hnot⟩⟩
      · exact .inr ⟨t, List.mem_cons_self, rfl⟩
      · exact .inr ⟨u, List.mem_cons_of_mem t hu, rfl⟩
    · rintro (⟨hg, hnot⟩ | ⟨u, hu, rfl⟩)
      · obtain ⟨hne, hnot⟩ := not_or.mp (List.mem_cons.not.mp hnot)
        exact .inl ⟨.inl ⟨hg, hne⟩, hnot⟩
      · by_cases hrest : u ∈ ts
        · exact .inr ⟨u, hrest, rfl⟩
        · obtain rfl := (List.mem_cons.mp hu).resolve_right hrest
          exact .inl ⟨.inr rfl, hrest⟩

/-- A tuple on another object. -/
def onObject (target : Obj) (t : RoleTuple) : RoleTuple := { t with object := target }

theorem mem_moveRows {target : Obj} {ts : List RoleTuple} (hts : ∀ t ∈ ts, t.object ≠ target)
    (h : ts.foldlM (moveRow now target) rows = .ok rows') :
    g ∈ rows' ↔ (g ∈ rows ∧ ¬ (g.key ∈ ts ∧ g.visible now = true) ∧ g.key ∉ ts.map (onObject target)) ∨
      ∃ t ∈ ts.map (onObject target), g = plain t := by
  induction ts generalizing rows with
  | nil =>
    cases h
    simp
  | cons t ts ih =>
    rw [List.foldlM_cons, bind_eq_ok] at h
    obtain ⟨rows₂, hmove, h⟩ := h
    rw [moveRow, bind_eq_ok] at hmove
    obtain ⟨rows₁, hdelete, hwrite⟩ := hmove
    have hrest : ∀ u ∈ ts, u.object ≠ target := fun u hu => hts u (List.mem_cons_of_mem t hu)
    rw [ih hrest h, mem_writeRow hwrite, mem_deleteRow hdelete, List.map_cons]
    constructor
    · rintro (⟨⟨⟨hg, hgone⟩, hne⟩ | rfl, hkept, hnot⟩ | ⟨u, hu, rfl⟩)
      · refine .inl ⟨hg, ?_, fun hmem => ?_⟩
        · rintro ⟨hmem, hvisible⟩
          rcases List.mem_cons.mp hmem with rfl | hmem
          · exact hgone ⟨rfl, hvisible⟩
          · exact hkept ⟨hmem, hvisible⟩
        · rcases List.mem_cons.mp hmem with heq | hmem
          · exact hne heq
          · exact hnot hmem
      · exact .inr ⟨_, List.mem_cons_self, rfl⟩
      · exact .inr ⟨u, List.mem_cons_of_mem _ hu, rfl⟩
    · rintro (⟨hg, hgone, hnot⟩ | ⟨u, hu, rfl⟩)
      · obtain ⟨hne, hnot⟩ := not_or.mp (List.mem_cons.not.mp hnot)
        exact .inl ⟨.inl ⟨⟨hg, fun heq => hgone ⟨heq.1 ▸ List.mem_cons_self, heq.2⟩⟩, hne⟩,
          fun hmem => hgone ⟨List.mem_cons_of_mem t hmem.1, hmem.2⟩, hnot⟩
      · by_cases hlater : u ∈ ts.map (onObject target)
        · exact .inr ⟨u, hlater, rfl⟩
        · obtain rfl := (List.mem_cons.mp hu).resolve_right hlater
          -- what has been written is on the new object, and no tuple is moved from there
          exact .inl ⟨.inr rfl, fun hmem => hrest _ hmem.1 rfl, hlater⟩

end Rows

/-! ## The types after a rename -/

theorem setTypeNamespace_spec {m m' : ManagedStore} {name ns : String} (h : setTypeNamespace m name ns = .ok m') :
    (∃ t ∈ m'.types, t.name = name ∧ t.ns = nullable ns) ∧
    ∀ n, (∃ t ∈ m.types, t.name = n ∧ t.ns = nullable ns) → ∃ t ∈ m'.types, t.name = n ∧ t.ns = nullable ns := by
  simp only [setTypeNamespace, bind_eq_ok, guardOr_eq_ok, exists_const, knownType_eq_ok] at h
  obtain ⟨-, t, ⟨ht, rfl⟩, h⟩ := h
  cases h
  refine ⟨⟨_, Keyed.mem_upsert.mpr (.inr rfl), rfl, rfl⟩, ?_⟩
  rintro n ⟨u, hu, rfl, hns⟩
  by_cases hname : u.name = t.name
  · exact ⟨_, Keyed.mem_upsert.mpr (.inr rfl), hname.symm, rfl⟩
  · exact ⟨u, Keyed.mem_upsert.mpr (.inl ⟨hu, hname⟩), rfl, hns⟩

theorem types_of_foldlM {types : List TypeRow} {m m' : ManagedStore} {ns : String}
    (h : types.foldlM (fun m t => setTypeNamespace m t.name ns) m = .ok m') (n : String)
    (hn : (∃ t ∈ types, t.name = n) ∨ ∃ t ∈ m.types, t.name = n ∧ t.ns = nullable ns) :
    ∃ t ∈ m'.types, t.name = n ∧ t.ns = nullable ns := by
  induction types generalizing m with
  | nil =>
    cases h
    exact hn.resolve_left nofun
  | cons t types ih =>
    rw [List.foldlM_cons, bind_eq_ok] at h
    obtain ⟨m₁, hset, h⟩ := h
    obtain ⟨hdone, hkeep⟩ := setTypeNamespace_spec hset
    apply ih h
    rcases hn with ⟨u, hu, rfl⟩ | hn
    · rcases List.mem_cons.mp hu with rfl | hu
      · exact .inr hdone
      · exact .inl ⟨u, hu, rfl⟩
    · exact .inr (hkeep n hn)

/-! ## A successful rename -/

section Renamed

variable {cfg : Config} {env : Conditions Cond Ctx} {now : ℤ} {st st' : ConsoleState Cond} {p : Principal}
  {s ns renamed : String}

/-- What a rename writes, if there are tuples on the namespace. -/
def written (now : ℤ) (s ns renamed : String) (st : ConsoleState Cond) : List RoleTuple :=
  ((rowsOn now (nsObject s ns) st).map RoleRow.key).map (onObject (nsObject s renamed)) ++ namespaceLinks s renamed

theorem mem_rowsOn {object : Obj} {g : RoleRow Cond} :
    g ∈ rowsOn now object st ↔ g ∈ st.rows ∧ g.key.object = object ∧ g.visible now = true := by
  unfold rowsOn
  rw [List.mem_filter, Bool.and_eq_true, decide_eq_true_iff]
  rfl

theorem nsObject_ne {s ns renamed : String} (h : ns ≠ renamed) : nsObject s ns ≠ nsObject s renamed := by
  intro heq
  apply h
  have hid := congrArg (fun o : Obj => o.id.toList) heq
  exact String.toList_inj.mp (by simpa [nsObject] using hid)

/-- The rows and the types after a rename. -/
structure Renamed (now : ℤ) (s ns renamed : String) (st st' : ConsoleState Cond) : Prop where
  differ : ns ≠ renamed
  types : ∀ t ∈ st.store.types, t.ns = some ns → ∃ t' ∈ st'.store.types, t'.name = t.name ∧ t'.ns = some renamed
  unmoved : rowsOn now (nsObject s ns) st = [] → st'.rows = st.rows
  moved : rowsOn now (nsObject s ns) st ≠ [] → ∀ g, g ∈ st'.rows ↔
    (g ∈ st.rows ∧ ¬ (g.key.object = nsObject s ns ∧ g.visible now = true) ∧ g.key ∉ written now s ns renamed st) ∨
      ∃ t ∈ written now s ns renamed st, g = plain t

theorem renamed_of_handle (h : handleNamespaceRename cfg env now st p s ns renamed = .ok st') :
    Renamed now s ns renamed st st' := by
  simp only [handleNamespaceRename, bind_eq_ok, guardOr_eq_ok, exists_const, decide_eq_true_eq] at h
  obtain ⟨-, -, ⟨-, hvalid, hdiffer⟩, -, store, hstore, rows, hmove, h⟩ := h
  have hne := @nsObject_ne s _ _ hdiffer
  have hmoved : ∀ g, g ∈ rows ↔ _ := fun g => mem_moveRows (g := g) (fun t ht => by
    obtain ⟨g, hg, rfl⟩ := List.mem_map.mp ht
    rw [(mem_rowsOn.mp hg).2.1]
    exact hne) hmove
  have hfold : (typesOf ns st).foldlM (fun m t => setTypeNamespace m t.name renamed) st.store = .ok store := by
    cases hr : (typesOf ns st).foldlM (fun m t => setTypeNamespace m t.name renamed) st.store with
    | error e =>
      rw [hr] at hstore
      cases hstore
    | ok _ =>
      rw [hr] at hstore
      exact congrArg _ (Except.ok.inj hstore)
  have hsome : nullable renamed = some renamed := by
    have hnonempty : renamed ≠ "" := by
      rintro rfl
      exact absurd hvalid (by decide)
    exact if_neg hnonempty
  have htypes : ∀ t ∈ st.store.types, t.ns = some ns → ∃ t' ∈ store.types, t'.name = t.name ∧ t'.ns = some renamed := by
    intro t ht htns
    have hmem : t ∈ typesOf ns st := List.mem_filter.mpr ⟨ht, by simpa using htns⟩
    rw [← hsome]
    exact types_of_foldlM hfold t.name (.inl ⟨t, hmem, rfl⟩)
  split at h
  · -- no role on the old namespace: no row is written or deleted
    rename_i hnone
    cases h
    have hnil := List.map_eq_nil_iff.mp hnone
    refine ⟨hdiffer, htypes, fun _ => ?_, fun hsomeRow => absurd hnil hsomeRow⟩
    rw [hnil] at hmove
    cases hmove
    rfl
  · -- the rows move, the link from the old namespace goes, and those of the new one are written
    rename_i hroles
    rw [bind_eq_ok] at h
    obtain ⟨rows₁, hdelete, h⟩ := h
    rw [bind_eq_ok] at h
    obtain ⟨rows₂, hwrite, h⟩ := h
    cases h
    refine ⟨hdiffer, htypes, fun hnil => absurd (by rw [hnil]; rfl) hroles, fun _ g => ?_⟩
    have hkeys : g ∈ st.rows → (g.key ∈ (rowsOn now (nsObject s ns) st).map RoleRow.key ∧ g.visible now = true ↔
        g.key.object = nsObject s ns ∧ g.visible now = true) := by
      intro hg
      refine and_congr_left fun hvisible => ?_
      constructor
      · intro hmem
        obtain ⟨g', hg', hkey⟩ := List.mem_map.mp hmem
        rw [← hkey]
        exact (mem_rowsOn.mp hg').2.1
      · exact fun hobject => List.mem_map_of_mem (mem_rowsOn.mpr ⟨hg, hobject, hvisible⟩)
    have hold : ∀ t ∈ ((rowsOn now (nsObject s ns) st).map RoleRow.key).map (onObject (nsObject s renamed)),
        t ≠ .link ⟨.store, s⟩ .store (nsObject s ns) := by
      rintro t ht rfl
      obtain ⟨u, -, hu⟩ := List.mem_map.mp ht
      exact hne (congrArg RoleTuple.object hu).symm
    rw [mem_writeRows hwrite, mem_deleteRow hdelete, hmoved, written]
    constructor
    · rintro (⟨⟨⟨hg, hkept, hnot⟩ | ⟨t, ht, rfl⟩, -⟩, hlinks⟩ | ⟨t, ht, rfl⟩)
      · refine .inl ⟨hg, fun hthere => hkept ((hkeys hg).mpr hthere), fun hmem => ?_⟩
        rcases List.mem_append.mp hmem with hmem | hmem
        · exact hnot hmem
        · exact hlinks hmem
      · exact .inr ⟨t, List.mem_append_left _ ht, rfl⟩
      · exact .inr ⟨t, List.mem_append_right _ ht, rfl⟩
    · rintro (⟨hg, hkept, hnot⟩ | ⟨t, ht, rfl⟩)
      · refine .inl ⟨⟨.inl ⟨hg, fun hthere => hkept ((hkeys hg).mp hthere), fun hmem => ?_⟩, ?_⟩, fun hmem => ?_⟩
        · exact hnot (List.mem_append_left _ hmem)
        · -- the link from the old namespace to its store is one of the rows that have gone
          exact fun hthere => hkept ⟨congrArg RoleTuple.object hthere.1, hthere.2⟩
        · exact hnot (List.mem_append_right _ hmem)
      · by_cases hlink : t ∈ namespaceLinks s renamed
        · exact .inr ⟨t, hlink, rfl⟩
        · have hmoved := (List.mem_append.mp ht).resolve_right hlink
          exact .inl ⟨⟨.inr ⟨t, hmoved, rfl⟩, fun hthere => hold t hmoved hthere.1⟩, hlink⟩

/-! ## Rights under the other name -/

/-- Another name for one object. -/
def renameObj (a b o : Obj) : Obj := if o = a then b else o

theorem renameObj_typ {a b : Obj} (h : a.typ = b.typ) (o : Obj) : (renameObj a b o).typ = o.typ := by
  unfold renameObj
  split
  · rename_i heq
    rw [heq, h]
  · rfl

theorem renameObj_self {a b : Obj} : renameObj a b a = b := if_pos rfl

theorem renameObj_of_ne {a b o : Obj} (h : o ≠ a) : renameObj a b o = o := if_neg h

theorem mapTuple_renameObj {a b : Obj} {t : RoleTuple} (huser : t.user.obj ≠ a) :
    mapTuple (renameObj a b) t = onObject (renameObj a b t.object) t :=
  mapTuple_of_fixed (renameObj_of_ne huser)

theorem mapTuple_eq_self {a b : Obj} {t : RoleTuple} (huser : t.user.obj ≠ a) (hobject : t.object ≠ a) :
    mapTuple (renameObj a b) t = t := by
  rw [mapTuple_renameObj huser, renameObj_of_ne hobject]
  rfl

theorem mapTuple_of_object {a b : Obj} {t : RoleTuple} (huser : t.user.obj ≠ a) (hobject : t.object = a) :
    mapTuple (renameObj a b) t = onObject b t := by
  rw [mapTuple_renameObj huser, hobject, renameObj_self]

theorem ne_nsObject {o : Obj} (h : o.typ ≠ .namespace) : o ≠ nsObject s ns := by
  rintro rfl
  exact h rfl

/-- What a request adds is about the teams and the stores of the person. -/
theorem mem_tuplesFor {object : Obj} {t : RoleTuple} (h : t ∈ p.tuplesFor object) :
    t.user = p.user ∧ (t.object.typ = .team ∨ t.object.typ = .store) := by
  have hteam : ∀ t ∈ p.memberships, t.user = p.user ∧ (t.object.typ = .team ∨ t.object.typ = .store) := by
    intro t ht
    obtain ⟨team, -, rfl⟩ := List.mem_map.mp ht
    exact ⟨rfl, .inl rfl⟩
  unfold Principal.tuplesFor at h
  split at h
  · exact hteam t h
  · rcases List.mem_append.mp h with h | h
    · exact hteam t h
    · obtain ⟨store, -, rfl⟩ := List.mem_map.mp h
      exact ⟨rfl, .inr rfl⟩

theorem tuplesFor_nsObject (p : Principal) (s ns renamed : String) :
    p.tuplesFor (nsObject s renamed) = p.tuplesFor (nsObject s ns) := rfl

/-- **A person has a right under the other name**, if every tuple is there under the other name. -/
theorem canQ_rename {T T' : List RoleTuple} {a b : String} (hp : IsPerson p)
    (hT : ∀ t ∈ T, mapTuple (renameObj (nsObject s a) (nsObject s b)) t ∈ T') {relation : Rel} {object object' : Obj}
    (hobject : renameObj (nsObject s a) (nsObject s b) object = object')
    (hfor : p.tuplesFor object = p.tuplesFor object') (h : canQ cfg T p relation object = true) :
    canQ cfg T' p relation object' = true := by
  have hperson : p.user.obj ≠ nsObject s a := by
    apply ne_nsObject
    rcases hp with hp | hp
    · exact fun h => nomatch hp.symm.trans h
    · exact fun h => nomatch hp.symm.trans h
  unfold canQ at h ⊢
  split at h
  · cases h
  · rename_i htests
    have htyp : ∀ o, (renameObj (nsObject s a) (nsObject s b) o).typ = o.typ := renameObj_typ rfl
    rw [if_neg htests, ← hobject]
    refine check_map htyp (fun t ht => ?_) (renameObj_of_ne hperson) h
    rw [hobject, ← hfor]
    rcases List.mem_append.mp ht with ht | ht
    · exact List.mem_append_left _ (hT t ht)
    · obtain ⟨huser, htyp⟩ := mem_tuplesFor ht
      rw [mapTuple_eq_self (huser ▸ hperson) (ne_nsObject (by rcases htyp with h | h <;> simp [h]))]
      exact List.mem_append_right _ ht

/-- Nobody has a right on a namespace without tuples. -/
theorem canQ_empty {T : List RoleTuple} {relation : Rel} (hT : ∀ t ∈ T, t.object ≠ nsObject s ns) :
    canQ cfg T p relation (nsObject s ns) = false := by
  rw [← Bool.not_eq_true]
  intro h
  unfold canQ at h
  split at h
  · cases h
  · obtain ⟨t, ht, hobject⟩ := exists_tuple_of_check h
    rcases List.mem_append.mp ht with ht | ht
    · exact hT t ht hobject
    · rcases (mem_tuplesFor ht).2 with htyp | htyp
      · exact nomatch htyp.symm.trans (congrArg Obj.typ hobject)
      · exact nomatch htyp.symm.trans (congrArg Obj.typ hobject)

/-! ## The tuples that hold after a rename -/

theorem mem_live {ctx : Ctx} {later : ℤ} {t : RoleTuple} :
    t ∈ live env ctx later st ↔ ∃ g ∈ st.rows, g.isLive env ctx later = true ∧ g.key = t := by
  unfold live
  rw [List.mem_map]
  simp only [List.mem_filter, and_assoc]
  rfl

theorem isLive_plain {ctx : Ctx} {later : ℤ} {t : RoleTuple} : (plain t).isLive env ctx later = true := rfl

theorem visible_of_isLive {ctx : Ctx} {later : ℤ} {g : RoleRow Cond} (hlater : now ≤ later)
    (h : g.isLive env ctx later = true) : g.visible now = true := by
  unfold RoleRow.isLive RoleRow.visible at h
  rw [Bool.and_eq_true] at h
  unfold RoleRow.visible
  rw [Option.all_eq_true] at h ⊢
  intro expiry hexpiry
  exact decide_eq_true (lt_of_le_of_lt hlater (of_decide_eq_true (h.1 expiry hexpiry)))

theorem mem_written {t : RoleTuple} :
    t ∈ written now s ns renamed st ↔
      (∃ g ∈ st.rows, g.key.object = nsObject s ns ∧ g.visible now = true ∧ onObject (nsObject s renamed) g.key = t) ∨
        t ∈ namespaceLinks s renamed := by
  rw [written, List.mem_append, List.map_map]
  simp only [List.mem_map, mem_rowsOn, and_assoc, Function.comp]

theorem mem_permanent {ctx : Ctx} {later : ℤ} {t : RoleTuple} :
    t ∈ permanent env now s ns ctx later st ↔ t ∈ live env ctx later st ∨
      (∃ g ∈ st.rows, g.key.object = nsObject s ns ∧ g.visible now = true ∧ g.key = t) ∨ t ∈ namespaceLinks s ns := by
  simp only [permanent, List.mem_append, List.mem_map, mem_rowsOn, and_assoc]

/-- What a rename writes is not on the old namespace. -/
theorem object_of_mem_written (hren : Renamed now s ns renamed st st') {t : RoleTuple}
    (ht : t ∈ written now s ns renamed st) : t.object ≠ nsObject s ns := by
  have hne := @nsObject_ne s _ _ hren.differ
  rcases mem_written.mp ht with ⟨g, -, -, -, rfl⟩ | ht
  · exact hne.symm
  · rcases List.mem_pair.mp ht with rfl | rfl
    · exact hne.symm
    · exact ne_nsObject nofun

/-- **After a rename the tuples hold for good under the new name.** -/
theorem permanent_renamed (hren : Renamed now s ns renamed st st')
    (hunlinked : ∀ g ∈ st.rows, g.key.user.obj ≠ nsObject s ns) (hrows : rowsOn now (nsObject s ns) st ≠ [])
    {ctx : Ctx} {later : ℤ} (hlater : now ≤ later) {t : RoleTuple}
    (ht : t ∈ permanent env now s ns ctx later st) :
    mapTuple (renameObj (nsObject s ns) (nsObject s renamed)) t ∈ live env ctx later st' := by
  have hwritten : ∀ u ∈ written now s ns renamed st, u ∈ live env ctx later st' := fun u hu =>
    mem_live.mpr ⟨plain u, (hren.moved hrows _).mpr (.inr ⟨u, hu, rfl⟩), isLive_plain, rfl⟩
  rcases mem_permanent.mp ht with ht | ⟨g, hg, hobject, hvisible, rfl⟩ | ht
  · obtain ⟨g, hg, hlive, rfl⟩ := mem_live.mp ht
    by_cases hobject : g.key.object = nsObject s ns
    · rw [mapTuple_of_object (hunlinked g hg) hobject]
      exact hwritten _ (mem_written.mpr (.inl ⟨g, hg, hobject, visible_of_isLive hlater hlive, rfl⟩))
    · rw [mapTuple_eq_self (hunlinked g hg) hobject]
      by_cases hkey : g.key ∈ written now s ns renamed st
      · exact hwritten _ hkey
      · exact mem_live.mpr ⟨g, (hren.moved hrows g).mpr (.inl ⟨hg, fun h => hobject h.1, hkey⟩), hlive, rfl⟩
  · rw [mapTuple_of_object (hunlinked g hg) hobject]
    exact hwritten _ (mem_written.mpr (.inl ⟨g, hg, hobject, hvisible, rfl⟩))
  · apply hwritten _ (mem_written.mpr (.inr _))
    rcases List.mem_pair.mp ht with rfl | rfl
    · simp [mapTuple, RoleTuple.link, User.obj, renameObj, namespaceLinks, nsObject]
    · simp [mapTuple, RoleTuple.link, User.obj, renameObj, namespaceLinks, nsObject]

/-- **What holds after a rename held before it, were it for good.** -/
theorem live_renamed (hren : Renamed now s ns renamed st st') (hunused : Unused st s renamed)
    (hrows : rowsOn now (nsObject s ns) st ≠ []) {ctx : Ctx} {later : ℤ} {t : RoleTuple}
    (ht : t ∈ live env ctx later st') :
    mapTuple (renameObj (nsObject s renamed) (nsObject s ns)) t ∈ permanent env now s ns ctx later st := by
  have hne := @nsObject_ne s _ _ hren.differ
  obtain ⟨g, hg, hlive, rfl⟩ := mem_live.mp ht
  rcases (hren.moved hrows g).mp hg with ⟨hg, hkept, hkey⟩ | ⟨u, hu, rfl⟩
  · -- a row that names the new namespace would be one of its links, and written again
    have hother : ¬ (g.key.object = nsObject s renamed ∨ g.key.user.obj = nsObject s renamed) := fun h =>
      hkey (mem_written.mpr (.inr (hunused.rows g hg h)))
    obtain ⟨hobject, huser⟩ := not_or.mp hother
    rw [mapTuple_eq_self huser hobject]
    exact mem_permanent.mpr (.inl (mem_live.mpr ⟨g, hg, hlive, rfl⟩))
  · show mapTuple _ u ∈ _
    rcases mem_written.mp hu with ⟨g, hrow, hobject, hvisible, rfl⟩ | hu
    · have huser : g.key.user.obj ≠ nsObject s renamed := by
        intro huser
        rcases List.mem_pair.mp (hunused.rows g hrow (.inr huser)) with heq | heq
        · exact hne (hobject.symm.trans (congrArg RoleTuple.object heq))
        · exact ne_nsObject (o := ⟨.store, s⟩) nofun ((congrArg RoleTuple.object heq).symm.trans hobject)
      rw [mapTuple_of_object (t := onObject (nsObject s renamed) g.key) huser rfl]
      have hback : onObject (nsObject s ns) (onObject (nsObject s renamed) g.key) = g.key := by
        rw [← hobject]
        rfl
      rw [hback]
      exact mem_permanent.mpr (.inr (.inl ⟨g, hrow, hobject, hvisible, rfl⟩))
    · apply mem_permanent.mpr (.inr (.inr _))
      rcases List.mem_pair.mp hu with rfl | rfl
      · simp [mapTuple, RoleTuple.link, User.obj, renameObj, namespaceLinks, nsObject]
      · simp [mapTuple, RoleTuple.link, User.obj, renameObj, namespaceLinks, nsObject]

/-- **Nothing names the old namespace after a rename** iff no tuple had it as a user and no row on it had expired. -/
theorem gone_iff (hren : Renamed now s ns renamed st st') :
    (∀ g ∈ st'.rows, g.key.object ≠ nsObject s ns ∧ g.key.user.obj ≠ nsObject s ns) ↔
      (∀ g ∈ st.rows, g.key.user.obj ≠ nsObject s ns) ∧
        ∀ g ∈ st.rows, g.key.object = nsObject s ns → g.visible now = true := by
  have hne := @nsObject_ne s _ _ hren.differ
  by_cases hrows : rowsOn now (nsObject s ns) st = []
  · rw [hren.unmoved hrows]
    constructor
    · exact fun hgone => ⟨fun g hg => (hgone g hg).2, fun g hg hobject => absurd hobject (hgone g hg).1⟩
    · rintro ⟨hunlinked, hunexpired⟩ g hg
      refine ⟨fun hobject => ?_, hunlinked g hg⟩
      have hmem := mem_rowsOn.mpr ⟨hg, hobject, hunexpired g hg hobject⟩
      rw [hrows] at hmem
      cases hmem
  · have hmoved := hren.moved hrows
    constructor
    · intro hgone
      have hunlinked : ∀ g ∈ st.rows, g.key.user.obj ≠ nsObject s ns := by
        intro g hg huser
        by_cases hthere : g.key.object = nsObject s ns ∧ g.visible now = true
        · have hmem : onObject (nsObject s renamed) g.key ∈ written now s ns renamed st :=
            mem_written.mpr (.inl ⟨g, hg, hthere.1, hthere.2, rfl⟩)
          exact (hgone _ ((hmoved _).mpr (.inr ⟨_, hmem, rfl⟩))).2 huser
        · by_cases hkey : g.key ∈ written now s ns renamed st
          · exact (hgone _ ((hmoved _).mpr (.inr ⟨_, hkey, rfl⟩))).2 huser
          · exact (hgone g ((hmoved g).mpr (.inl ⟨hg, hthere, hkey⟩))).2 huser
      refine ⟨hunlinked, fun g hg hobject => ?_⟩
      by_contra hexpired
      have hkey : g.key ∉ written now s ns renamed st := fun hmem => object_of_mem_written hren hmem hobject
      exact (hgone g ((hmoved g).mpr (.inl ⟨hg, fun h => hexpired h.2, hkey⟩))).1 hobject
    · rintro ⟨hunlinked, hunexpired⟩ g hg
      rcases (hmoved g).mp hg with ⟨hg, hkept, -⟩ | ⟨t, ht, rfl⟩
      · exact ⟨fun hobject => hkept ⟨hobject, hunexpired g hg hobject⟩, hunlinked g hg⟩
      · refine ⟨object_of_mem_written hren ht, ?_⟩
        rcases mem_written.mp ht with ⟨g, hrow, -, -, rfl⟩ | ht
        · exact hunlinked g hrow
        · rcases List.mem_pair.mp ht with rfl | rfl
          · exact ne_nsObject (o := ⟨.store, s⟩) nofun
          · exact hne.symm

/-- A person may do on the renamed objects what they might do before, were the tuples there for good. -/
theorem canQ_renamed (hren : Renamed now s ns renamed st st') (hunused : Unused st s renamed)
    (hunlinked : ∀ g ∈ st.rows, g.key.user.obj ≠ nsObject s ns)
    (hrows : rowsOn now (nsObject s ns) st ≠ []) (hp : IsPerson p) {ctx : Ctx} {later : ℤ} (hlater : now ≤ later)
    {relation : Rel} {object object' : Obj}
    (hforth : renameObj (nsObject s ns) (nsObject s renamed) object = object')
    (hback : renameObj (nsObject s renamed) (nsObject s ns) object' = object)
    (hfor : p.tuplesFor object = p.tuplesFor object') :
    canQ cfg (live env ctx later st') p relation object' =
      canQ cfg (permanent env now s ns ctx later st) p relation object := by
  rw [Bool.eq_iff_iff]
  constructor
  · exact canQ_rename hp (fun t => live_renamed hren hunused hrows) hback hfor.symm
  · exact canQ_rename hp (fun t => permanent_renamed hren hunlinked hrows hlater) hforth hfor

theorem live_of_unmoved (hren : Renamed now s ns renamed st st') (hrows : rowsOn now (nsObject s ns) st = [])
    (ctx : Ctx) (later : ℤ) : live env ctx later st' = live env ctx later st := by
  rw [live, hren.unmoved hrows, live]

/-- Nobody has a right on a namespace without rows. -/
theorem canQ_of_rowsOn_eq_nil (hunexpired : ∀ g ∈ st.rows, g.key.object = nsObject s ns → g.visible now = true)
    (hrows : rowsOn now (nsObject s ns) st = []) (ctx : Ctx) (later : ℤ) {relation : Rel} :
    canQ cfg (live env ctx later st) p relation (nsObject s ns) = false := by
  apply canQ_empty
  intro t ht hobject
  obtain ⟨g, hg, -, rfl⟩ := mem_live.mp ht
  have hmem := mem_rowsOn.mpr ⟨hg, hobject, hunexpired g hg hobject⟩
  rw [hrows] at hmem
  cases hmem

/-- **A rename preserves the access exactly if the tuples are carried over.** -/
theorem rename_preserves_iff (h : handleNamespaceRename cfg env now st p s ns renamed = .ok st')
    (hunused : Unused st s renamed) :
    Preserves cfg env now s ns renamed st st' ↔ Carried cfg env now s ns renamed st := by
  have hren := renamed_of_handle h
  have hfixed : ∀ a b, renameObj (nsObject s a) (nsObject s b) ⟨.store, s⟩ = ⟨.store, s⟩ := fun a b =>
    renameObj_of_ne (ne_nsObject nofun)
  constructor
  · rintro ⟨-, hgone, hstore, hnamespace⟩
    obtain ⟨hunlinked, hunexpired⟩ := (gone_iff hren).mp hgone
    refine ⟨hunlinked, hunexpired, ?_, ?_, ?_⟩
    · intro hrows p hp ctx later hlater r hr
      rw [← live_of_unmoved hren hrows, hnamespace p hp ctx later hlater r hr,
        canQ_of_rowsOn_eq_nil hunexpired hrows]
    · intro hrows p hp ctx later hlater r hr
      rw [← hstore p hp ctx later hlater r hr]
      exact (canQ_renamed hren hunused hunlinked hrows hp hlater (hfixed ns renamed) (hfixed renamed ns)
        rfl).symm
    · intro hrows p hp ctx later hlater r hr
      rw [← hnamespace p hp ctx later hlater r hr]
      exact (canQ_renamed hren hunused hunlinked hrows hp hlater renameObj_self renameObj_self
        (tuplesFor_nsObject p s ns renamed)).symm
  · rintro ⟨hunlinked, hunexpired, hempty, hstore, hnamespace⟩
    refine ⟨hren.types, (gone_iff hren).mpr ⟨hunlinked, hunexpired⟩, ?_, ?_⟩
    · intro p hp ctx later hlater r hr
      by_cases hrows : rowsOn now (nsObject s ns) st = []
      · rw [live_of_unmoved hren hrows]
      · rw [← hstore hrows p hp ctx later hlater r hr]
        exact canQ_renamed hren hunused hunlinked hrows hp hlater (hfixed ns renamed) (hfixed renamed ns) rfl
    · intro p hp ctx later hlater r hr
      by_cases hrows : rowsOn now (nsObject s ns) st = []
      · rw [live_of_unmoved hren hrows, hempty hrows p hp ctx later hlater r hr,
          canQ_of_rowsOn_eq_nil hunexpired hrows]
      · rw [← hnamespace hrows p hp ctx later hlater r hr]
        exact canQ_renamed hren hunused hunlinked hrows hp hlater renameObj_self renameObj_self
          (tuplesFor_nsObject p s ns renamed)

end Renamed

/-! ## Two runs -/

/-- The owner of a store. -/
def root : Principal := ⟨.user, "root", [], none, "shop", false⟩

/-- Conditions without a name, so that no row has one. -/
def noConditions : Conditions Empty Unit := ⟨nofun, ()⟩

/-- A store whose only role is that of its owner. -/
def ownedShop : ConsoleState Empty := ⟨⟨[plain ⟨root.user, .owner, ⟨.store, "shop"⟩⟩], by decide⟩, shop⟩

/-- A namespace without roles is renamed. -/
theorem rename_preserves_owned : ∃ st', handleNamespaceRename shopConfig noConditions 0 ownedShop root "shop" "crm"
      "sales" = .ok st' ∧ Preserves shopConfig noConditions 0 "shop" "crm" "sales" ownedShop st' := by
  have hok : ∃ st', handleNamespaceRename shopConfig noConditions 0 ownedShop root "shop" "crm" "sales" = .ok st' :=
    ⟨_, rfl⟩
  obtain ⟨st', hok⟩ := hok
  have hrow : ∀ g ∈ ownedShop.rows, g = plain ⟨root.user, .owner, ⟨.store, "shop"⟩⟩ := fun g hg =>
    List.mem_singleton.mp hg
  have hunused : Unused ownedShop "shop" "sales" := by
    refine ⟨by decide, fun g hg h => ?_⟩
    obtain rfl := hrow g hg
    rcases h with h | h
    · exact absurd h (by decide)
    · exact absurd h (by decide)
  refine ⟨st', hok, (rename_preserves_iff hok hunused).mpr ⟨?_, ?_, ?_, ?_, ?_⟩⟩
  · intro g hg
    obtain rfl := hrow g hg
    decide
  · intro g hg _
    obtain rfl := hrow g hg
    rfl
  · intro _ p _ ctx later _ r _
    apply canQ_empty
    intro t ht
    obtain ⟨g, hg, -, rfl⟩ := mem_live.mp ht
    obtain rfl := hrow g hg
    decide
  · exact fun h => absurd rfl h
  · exact fun h => absurd rfl h

/-- The store with an author of a namespace until an instant, linked as the console links it. -/
def leasedShop : ConsoleState Empty where
  rows := ⟨plain ⟨root.user, .owner, ⟨.store, "shop"⟩⟩ ::
    ⟨⟨carol.user, .author, nsObject "shop" "crm"⟩, none, some 10⟩ :: (namespaceLinks "shop" "crm").map plain, by decide⟩
  store := shop

/-- **After a rename the author stays one beyond that instant**, and the store is still linked to the old name. -/
theorem renamed_author_stays :
    ∃ st', handleNamespaceRename shopConfig noConditions 0 leasedShop root "shop" "crm" "sales" = .ok st' ∧
      canQ shopConfig (live noConditions () 20 leasedShop) carol .canEditModel (nsObject "shop" "crm") = false ∧
      canQ shopConfig (live noConditions () 20 st') carol .canEditModel (nsObject "shop" "sales") = true ∧
      plain (.link (nsObject "shop" "crm") .namespace ⟨.store, "shop"⟩) ∈ st'.rows ∧
      Unused leasedShop "shop" "sales" ∧ ¬Preserves shopConfig noConditions 0 "shop" "crm" "sales" leasedShop st' := by
  refine ⟨_, rfl, by decide, by decide, by decide, ⟨by decide, by decide⟩, fun h => ?_⟩
  exact absurd (h.onNamespace carol (.inl rfl) () 20 (by decide) .canEditModel (by decide)) (by decide)

end PgAuthz.Console.Renaming
