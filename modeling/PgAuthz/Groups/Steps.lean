import PgAuthz.Groups.Tables

/-!
# What the transactions on store groups do

For each function of the store groups, the checks that it passed and the tables that it leaves when it
does not raise. Everything that is proved about these functions goes through the lemmas of this module;
the functions themselves are not unfolded again.

## Main results

* `findStore_upsert`, `findBinding_upsert`, `ownerOf_upsert`, `versionsOf_upsert`: lookups after a write
* `setStoreGroup_eq_ok`, `deleteStoreGroup_eq_ok`, …: one lemma for each function
* `publish_eq_ok`, `apply_eq_ok`: what the registry asked of the tables
-/

namespace PgAuthz

namespace Groups

open Keyed (refuseIf_eq_ok pure_eq_ok bind_eq_ok_iff)
open Daemon (Binding plainName)
open Registry (Owner Registered Version Definition)

variable {J : Type} {db db' : Db J}

/-- The tables of a function that also says whether there was a row. -/
theorem map_fst_eq_ok {x : Except Refused (Db J × Bool)} :
    x.map Prod.fst = .ok db' ↔ ∃ b, x = .ok (db', b) := by
  cases x with
  | error e => simp [Except.map]
  | ok p =>
    obtain ⟨db₁, b⟩ := p
    simp [Except.map]

theorem step_eq_some [DecidableEq J] {catalog : Registry.Database String J} {checks : BindingChecks}
    {e : Event J} : step catalog checks db e = some db' ↔ exec catalog checks db e = .ok db' := by
  unfold step
  cases exec catalog checks db e <;> simp [Except.toOption]

/-! ## Lookups after a write -/

theorem findStore_upsert {σ : StoreRow J} (h : db'.stores = db.stores.upsert σ) (s : String) :
    db'.findStore s = if σ.name = s then some σ else db.findStore s := by
  rw [Db.findStore, h, Keyed.Table.find?_upsert]
  rfl

theorem findStore_delete {name : String} (h : db'.stores = db.stores.delete fun σ => σ.name = name)
    (s : String) : db'.findStore s = if name = s then none else db.findStore s := by
  rw [Db.findStore, h, Keyed.Table.find?_delete]
  rfl

theorem findStore_name {s : String} {σ : StoreRow J} (h : db.findStore s = some σ) : σ.name = s :=
  (Keyed.Table.find?_eq_some_iff.mp h).2

/-- The group of a store that is moved, and of one that keeps its group. -/
theorem groupOf_upsert {σ : StoreRow J} (h : db'.stores = db.stores.upsert σ) (s : String) :
    db'.groupOf s = if σ.name = s then σ.group else db.groupOf s := by
  rw [Db.groupOf, findStore_upsert h]
  split <;> rfl

theorem findBinding_upsert {b : BindingRow} (h : db'.bindings = db.bindings.upsert b) (iss : String) :
    db'.findBinding iss = if b.row.issuer = iss then some b else db.findBinding iss := by
  rw [Db.findBinding, h]
  exact Keyed.Table.find?_upsert db.bindings b iss

theorem findBinding_delete {d : String} (h : db'.bindings = db.bindings.delete fun b => b.row.issuer = d)
    (iss : String) : db'.findBinding iss = if d = iss then none else db.findBinding iss := by
  rw [Db.findBinding, h]
  exact Keyed.Table.find?_delete db.bindings d iss

theorem findBinding_issuer {iss : String} {b : BindingRow} (h : db.findBinding iss = some b) :
    b.row.issuer = iss :=
  (Keyed.Table.find?_eq_some_iff.mp h).2

theorem ownerOf_upsert {o : OwnerRow} (h : db'.owners = db.owners.upsert o) (name : String) :
    db'.ownerOf name = if o.name = name then some o.owner else db.ownerOf name := by
  rw [Db.ownerOf, h, Keyed.Table.find?_upsert]
  split <;> rfl

theorem versionsOf_upsert {m : NamedModel J} (h : db'.registry = db.registry.upsert m) (name : String) :
    db'.versionsOf name = if m.name = name then m.versions else db.versionsOf name := by
  rw [Db.versionsOf, h, Keyed.Table.find?_upsert]
  split <;> rfl

theorem ownerOf_eq_some {name : String} {o : Owner String} :
    db.ownerOf name = some o ↔ (⟨name, o⟩ : OwnerRow) ∈ db.owners := by
  unfold Db.ownerOf
  rw [Option.map_eq_some_iff]
  constructor
  · rintro ⟨row, hfind, rfl⟩
    obtain ⟨hmem, rfl⟩ := Keyed.Table.find?_eq_some_iff.mp hfind
    exact hmem
  · exact fun h => ⟨⟨name, o⟩, Keyed.Table.find?_eq_some_iff.mpr ⟨h, rfl⟩, rfl⟩

theorem groupOf_eq_some {s g : String} :
    db.groupOf s = some g ↔ ∃ σ, db.findStore s = some σ ∧ σ.group = some g :=
  Option.bind_eq_some_iff

/-! ## Stores -/

theorem createStore_eq_ok {name : String} (h : createStore name db = .ok db') :
    ∃ plain, db.findStore name = none ∧
      db' = { db with stores := db.stores.upsert ⟨name, none, .empty, none, plain⟩ } := by
  unfold createStore at h
  split at h
  · rename_i plain
    simp only [bind_eq_ok_iff, refuseIf_eq_ok, pure_eq_ok] at h
    obtain ⟨-, -, -, hfree, rfl⟩ := h
    exact ⟨plain, by simpa using hfree, rfl⟩
  · cases h

theorem deleteStore_eq_ok {name : String} (h : deleteStore name db = .ok db') :
    db' = { db with stores := db.stores.delete fun σ => σ.name = name } := by
  simp only [deleteStore, bind_eq_ok_iff, refuseIf_eq_ok, pure_eq_ok] at h
  exact h.choose_spec.2

theorem editModel_eq_ok {name : String} {model : Registry.Store String J}
    (h : editModel name model db = .ok db') :
    ∃ σ, db.findStore name = some σ ∧
      db' = { db with stores := db.stores.upsert { σ with model := model } } := by
  unfold editModel at h
  split at h
  · cases h
  · rename_i σ hσ
    exact ⟨σ, hσ, (Except.ok.inj h).symm⟩

/-! ## Groups -/

theorem createStoreGroup_eq_ok {by_ name description : String}
    (h : createStoreGroup by_ name description db = .ok db') :
    plainName name = true ∧ name ∉ db.groups ∧
      db' = storeGroupAudit by_ .create name none (nullIfEmpty description)
        { db with groups := db.groups ++ [name] } := by
  simp only [createStoreGroup, bind_eq_ok_iff, refuseIf_eq_ok, pure_eq_ok] at h
  obtain ⟨-, hplain, -, hfree, rfl⟩ := h
  exact ⟨by simpa using hplain, hfree, rfl⟩

theorem updateStoreGroup_eq_ok {by_ name : String} {description : Option String}
    (h : updateStoreGroup by_ name description db = .ok db') :
    db' = storeGroupAudit by_ .update name none description db := by
  simp only [updateStoreGroup, bind_eq_ok_iff, refuseIf_eq_ok, pure_eq_ok] at h
  exact h.choose_spec.2

/-- A group that is deleted was named nowhere. -/
theorem deleteStoreGroup_eq_ok {by_ name : String} {deleted : Bool}
    (h : deleteStoreGroup by_ name db = .ok (db', deleted)) :
    (db' = db ∧ name ∉ db.groups ∧ deleted = false) ∨
      name ≠ "default" ∧ name ∈ db.groups ∧ (∀ σ ∈ db.stores, σ.group ≠ some name) ∧
      (∀ b ∈ db.bindings, b.row.storeGroup ≠ name) ∧
      (∀ o ∈ db.owners, o.owner.ownerGroup ≠ some name) ∧ deleted = true ∧
      db' = storeGroupAudit by_ .delete name none none
        { db with
          groups := db.groups.filter (· ≠ name)
          consumers := db.consumers.filter fun p => p.1 ≠ name ∧ p.2 ≠ name } := by
  unfold deleteStoreGroup at h
  obtain ⟨_, hdefault, h⟩ := bind_eq_ok_iff.mp h
  split at h
  · rename_i hmem
    cases pure_eq_ok.mp h
    exact .inl ⟨rfl, hmem, rfl⟩
  · rename_i hmem
    simp only [bind_eq_ok_iff, refuseIf_eq_ok, pure_eq_ok] at h
    obtain ⟨-, hstores, -, hbindings, -, howners, hdb⟩ := h
    cases hdb
    refine .inr ⟨refuseIf_eq_ok.mp hdefault, not_not.mp hmem, ?_, ?_, ?_, rfl, rfl⟩
    · intro σ hσ hg
      exact hstores (List.countP_pos_iff.mpr ⟨σ, hσ, by simpa using hg⟩)
    · intro b hb hg
      exact hbindings (List.countP_pos_iff.mpr ⟨b, hb, by simpa using hg⟩)
    · exact fun o ho hg => howners ⟨o, ho, hg⟩

/-- The trail of a move: out of the old group, if there is one, and into the new one. -/
def moveEntries (by_ store : String) (old new : Option String) : List GroupEntry :=
  (old.map fun g => ⟨.detach, by_, g, some store, none⟩).toList ++
    (new.map fun g => ⟨.attach, by_, g, some store, none⟩).toList

theorem setStoreGroup_eq_ok {by_ store : String} {group : Option String}
    (h : setStoreGroup by_ store group db = .ok db') :
    ∃ σ, db.findStore store = some σ ∧ (∀ g ∈ group.bind nullIfEmpty, g ∈ db.groups) ∧
      ((db' = db ∧ σ.group = group.bind nullIfEmpty) ∨
        σ.group ≠ group.bind nullIfEmpty ∧
        db' = { db with
          stores := db.stores.upsert { σ with group := group.bind nullIfEmpty }
          revision := db.revision + 1
          groupTrail := db.groupTrail ++ moveEntries by_ store σ.group (group.bind nullIfEmpty) }) := by
  unfold setStoreGroup at h
  cases hσ : db.findStore store with
  | none => simp [hσ] at h
  | some σ =>
    simp only [hσ, bind_eq_ok_iff, refuseIf_eq_ok] at h
    obtain ⟨-, hknown, h⟩ := h
    refine ⟨σ, rfl, fun g hg => by_contra fun hnot => hknown ⟨g, hg, hnot⟩, ?_⟩
    split at h
    · rename_i hsame
      exact .inl ⟨pure_eq_ok.mp h, hsame⟩
    · rename_i hmoved
      refine .inr ⟨hmoved, ?_⟩
      rw [pure_eq_ok.mp h]
      cases σ.group <;> cases group.bind nullIfEmpty <;>
        simp [storeGroupAudit, moveEntries]

/-! ## Sharing and ownership -/

theorem grantModelConsumer_eq_ok {by_ owner consumer : String}
    (h : grantModelConsumer by_ owner consumer db = .ok db') :
    owner ∈ db.groups ∧ consumer ∈ db.groups ∧ owner ≠ consumer ∧
      ((db' = db ∧ (owner, consumer) ∈ db.consumers) ∨
        (owner, consumer) ∉ db.consumers ∧
        db' = storeGroupAudit by_ .relate owner none (some (consumerText consumer))
          { db with consumers := db.consumers ++ [(owner, consumer)] }) := by
  simp only [grantModelConsumer, bind_eq_ok_iff, refuseIf_eq_ok, not_not] at h
  obtain ⟨-, howner, -, hconsumer, -, hne, h⟩ := h
  refine ⟨howner, hconsumer, hne, ?_⟩
  split at h
  · rename_i hmem
    exact .inl ⟨pure_eq_ok.mp h, hmem⟩
  · rename_i hmem
    exact .inr ⟨hmem, pure_eq_ok.mp h⟩

theorem setModelOwner_eq_ok {by_ name : String} {group store : Option String}
    (h : setModelOwner by_ name group store db = .ok db') :
    (∀ g ∈ group, g ∈ db.groups) ∧
      db' = storeGroupAudit by_ .own (group.getD "default") store (some ("model " ++ name))
        { db with owners := db.owners.upsert ⟨name, ⟨group, store⟩⟩ } := by
  simp only [setModelOwner, bind_eq_ok_iff, refuseIf_eq_ok, pure_eq_ok] at h
  obtain ⟨-, -, -, -, -, hknown, -, -, rfl⟩ := h
  exact ⟨fun g hg => by_contra fun hnot => hknown ⟨g, hg, hnot⟩, rfl⟩

/-! ## The registry -/

theorem liftRegistry_eq_ok {α : Type} {x : Except (Registry.Refusal String) α} {a : α} :
    liftRegistry x = .ok a ↔ x = .ok a := by
  cases x <;> simp [liftRegistry]

section Registry

variable [DecidableEq J]

theorem publish_eq_ok {name store : String} (h : publish name store db = .ok db') :
    ∃ σ reg, db.findStore store = some σ ∧
      Registry.publishModel (db.registered name) ⟨store, σ.group⟩ σ.model = .ok reg ∧
      db' = db.record name reg := by
  unfold publish at h
  split at h
  · cases h
  · rename_i σ hσ
    simp only [bind_eq_ok_iff, liftRegistry_eq_ok, pure_eq_ok] at h
    obtain ⟨reg, hreg, rfl⟩ := h
    exact ⟨σ, reg, hσ, hreg, rfl⟩

theorem publishDefinition_eq_ok {name : String} {d : Definition String J}
    (h : publishDefinition name d db = .ok db') :
    db' = db ∨ ∃ owner n,
      Registry.claimModelOwner (db.registered name) ⟨"", some "default"⟩ = .ok owner ∧
      n = (((db.versionsOf name).head?).map Version.version).getD 0 + 1 ∧
      db' = db.record name
        { db.registered name with owner := some owner, versions := ⟨n, d⟩ :: db.versionsOf name } := by
  unfold publishDefinition at h
  simp only [bind_eq_ok_iff] at h
  obtain ⟨-, -, -, -, h⟩ := h
  split at h
  · exact .inl (pure_eq_ok.mp h)
  · simp only [bind_eq_ok_iff, liftRegistry_eq_ok, pure_eq_ok] at h
    obtain ⟨owner, hclaim, rfl⟩ := h
    exact .inr ⟨owner, _, hclaim, rfl, rfl⟩

theorem apply_eq_ok {catalog : Registry.Database String J} {now : ℤ} {store name : String}
    {version : Option ℕ} (h : apply catalog now store name version db = .ok db') :
    ∃ σ model v, db.findStore store = some σ ∧
      Registry.applyModel catalog now (db.registered name) ⟨store, σ.group⟩ version σ.model
        = .ok (model, v) ∧
      db' = { db with stores := db.stores.upsert { σ with model := model, managed := some (name, v) } } := by
  unfold apply at h
  split at h
  · cases h
  · rename_i σ hσ
    simp only [bind_eq_ok_iff, liftRegistry_eq_ok, pure_eq_ok] at h
    obtain ⟨⟨model, v⟩, happly, rfl⟩ := h
    exact ⟨σ, model, v, hσ, happly, rfl⟩

end Registry

/-! ## Issuer bindings -/

variable {checks : BindingChecks}

theorem expects_iff {expectGroup : String} {o : BindingRow} :
    expects expectGroup o = true ↔ expectGroup = "*" ∨ o.row.storeGroup = expectGroup := by
  simp [expects]

/-- A binding that is written was valid, and the caller's expectation held of the row in its place. -/
theorem putBinding_eq_ok {by_ : String} {row : BindingRow} {expectGroup : String}
    {expectExists : Option Bool}
    (h : putBinding checks by_ row expectGroup expectExists db = .ok db') :
    validateIssuerBinding checks row.row db = .ok () ∧
      (∀ o, db.findBinding row.row.issuer = some o →
        expectExists ≠ some false ∧ expects expectGroup o = true) ∧
      ∃ action, action ≠ .delete ∧ db' = writeBinding by_ action row db := by
  unfold putBinding at h
  cases hcur : db.findBinding row.row.issuer with
  | none =>
    have hnone : ∀ o, (none : Option BindingRow) = some o →
        expectExists ≠ some false ∧ expects expectGroup o = true := by
      rintro o ⟨⟩
    rcases expectExists with - | - | -
    · simp only [hcur, bind_eq_ok_iff, pure_eq_ok] at h
      obtain ⟨_, _, _, ⟨_, _, hvalid⟩, rfl⟩ := h
      exact ⟨hvalid, hnone, .insert, by decide, rfl⟩
    · simp only [hcur, bind_eq_ok_iff, pure_eq_ok] at h
      obtain ⟨_, ⟨_, _, hvalid⟩, rfl⟩ := h
      exact ⟨hvalid, hnone, .insert, by decide, rfl⟩
    · simp [hcur, bind_eq_ok_iff] at h
  | some o =>
    rcases expectExists with - | - | -
    · simp only [hcur, bind_eq_ok_iff, pure_eq_ok, refuseIf_eq_ok] at h
      obtain ⟨_, hexp, _, ⟨_, _, hvalid⟩, rfl⟩ := h
      refine ⟨hvalid, ?_, .update, by decide, rfl⟩
      rintro _ ⟨⟩
      exact ⟨by decide, Bool.not_eq_false _ ▸ hexp⟩
    · simp [hcur, bind_eq_ok_iff] at h
    · simp only [hcur, bind_eq_ok_iff, pure_eq_ok, refuseIf_eq_ok] at h
      obtain ⟨_, ⟨_, _, hvalid⟩, _, hexp, rfl⟩ := h
      refine ⟨hvalid, ?_, .update, by decide, rfl⟩
      rintro _ ⟨⟩
      exact ⟨by decide, Bool.not_eq_false _ ▸ hexp⟩

theorem setIssuerBinding_eq_ok {by_ : String} {b : Binding} {expectGroup : String}
    {expectExists : Option Bool}
    (h : setIssuerBinding checks by_ b expectGroup expectExists db = .ok db') :
    ∃ row : BindingRow, row.row = normalRow checks b ∧
      putBinding checks by_ row expectGroup expectExists db = .ok db' := by
  unfold setIssuerBinding at h
  split at h
  · exact ⟨_, rfl, h⟩
  · cases h

theorem validateIssuerBinding_group {b : Binding} (h : validateIssuerBinding checks b db = .ok ()) :
    b.storeGroup = "" ∨ b.storeGroup ∈ db.groups := by
  simp only [validateIssuerBinding, bind_eq_ok_iff, refuseIf_eq_ok] at h
  obtain ⟨-, hgroup, -⟩ := h
  by_cases hempty : b.storeGroup = ""
  · exact .inl hempty
  · exact .inr (by_contra fun hnot => hgroup ⟨hempty, hnot⟩)

theorem deleteIssuerBinding_eq_ok {by_ ref expectGroup : String} {deleted : Bool}
    (h : deleteIssuerBinding checks by_ ref expectGroup db = .ok (db', deleted)) :
    (db' = db ∧ deleted = false) ∨ ∃ o, db.findBinding o.row.issuer = some o ∧
      expects expectGroup o = true ∧ deleted = true ∧
      db' = issuerBindingsChanged by_ .delete o.row
        { db with bindings := db.bindings.delete fun b => b.row.issuer = o.row.issuer } := by
  unfold deleteIssuerBinding at h
  cases hcur : db.findBinding ((resolveIssuer checks ref db).getD (btrim ref)) with
  | none =>
    simp only [hcur] at h
    cases h
    exact .inl ⟨rfl, rfl⟩
  | some o =>
    simp only [hcur, bind_eq_ok_iff, pure_eq_ok, refuseIf_eq_ok] at h
    obtain ⟨-, hexp, hdb⟩ := h
    cases hdb
    have hiss := findBinding_issuer hcur
    exact .inr ⟨o, by rw [hiss, hcur], Bool.not_eq_false _ ▸ hexp, rfl, by rw [hiss]⟩

end Groups

end PgAuthz
