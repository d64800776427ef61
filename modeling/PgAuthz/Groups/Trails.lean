import PgAuthz.Groups.Steps
import PgAuthz.Transition.Journal

/-!
# The trails of the store groups

Two trails record who changed what: one the groups, their stores and the grants between them, the other
the issuer bindings. This module says what each of them is worth: reading it from the start gives the
tables back.

The trail of the bindings is written by a trigger, and it is complete whatever the functions do. The
trail of the groups is written by the functions, and one of them writes nothing: `delete_store` takes a
store out of its group without an entry. Along runs that delete ungrouped stores only, the trail is
complete.

From a complete trail everything that it tells can be traced to single entries. A store applies a model
of another group only under a grant that is in the trail and was not revoked, and as a store that is in
the trail as attached to the group of the grant.

## Main definitions

* `Sound`: what the foreign keys and the checks of the tables keep
* `groupJournal`, `bindingJournal`: the trails with their reading
* `DetachesFirst`: a call does not delete a store that is in a group
* `Granted`, `Attached`: what a trail shows

## Main results

* `Sound.keeps`: every transaction keeps the tables sound
* `binding_trail_replays`: the trail of the bindings gives the bindings, and every entry counts
* `group_trail_replays`: the trail of the groups gives the groups, their stores and the grants
* `applied_under_grant`: who applies a model of another group does so under a grant in the trail
-/

namespace PgAuthz

namespace Groups

open Keyed (refuseIf_eq_ok pure_eq_ok bind_eq_ok_iff)
open Daemon (Binding plainName)
open Registry (Owner Registered Version Definition)
open Transition (run Keeps Along Journal)

variable {J : Type} {db db' : Db J}

/-! ## Sound tables -/

/-- The foreign keys on the groups, the group that is always there, and the names. -/
structure Sound (db : Db J) : Prop where
  plain : ∀ g ∈ db.groups, plainName g = true
  default_mem : "default" ∈ db.groups
  stores : ∀ σ ∈ db.stores, ∀ g ∈ σ.group, g ∈ db.groups
  bindings : ∀ b ∈ db.bindings, b.row.storeGroup = "" ∨ b.row.storeGroup ∈ db.groups
  owners : ∀ o ∈ db.owners, ∀ g ∈ o.owner.ownerGroup, g ∈ db.groups
  consumers : ∀ p ∈ db.consumers, p.1 ∈ db.groups ∧ p.2 ∈ db.groups ∧ p.1 ≠ p.2

theorem Sound.installed : Sound (Db.installed J) where
  plain := by
    intro g hg
    obtain rfl := List.mem_singleton.mp hg
    decide
  default_mem := List.mem_singleton_self _
  stores := fun _ hσ => absurd hσ Keyed.Table.not_mem_empty
  bindings := fun _ hb => absurd hb Keyed.Table.not_mem_empty
  owners := fun _ ho => absurd ho Keyed.Table.not_mem_empty
  consumers := List.forall_mem_nil _

theorem Sound.group_mem (h : Sound db) {s g : String} (hg : db.groupOf s = some g) : g ∈ db.groups := by
  obtain ⟨σ, hfind, hσ⟩ := groupOf_eq_some.mp hg
  exact h.stores σ (Keyed.Table.find?_eq_some_iff.mp hfind).1 g hσ

/-- The trails and the models of the stores are no part of it. -/
theorem Sound.of_upsert_store (h : Sound db) {σ : StoreRow J} (hσ : ∀ g ∈ σ.group, g ∈ db.groups)
    {revision : ℕ} {trail : List GroupEntry} :
    Sound { db with stores := db.stores.upsert σ, revision := revision, groupTrail := trail } :=
  { h with
    stores := by
      intro τ hτ
      rcases Keyed.Table.mem_upsert.mp hτ with rfl | ⟨hτ, -⟩
      · exact hσ
      · exact h.stores τ hτ }

/-- A row of a store that keeps its group. -/
theorem Sound.of_update_store (h : Sound db) {s : String} {σ σ' : StoreRow J} (hσ : db.findStore s = some σ)
    (hgroup : σ'.group = σ.group) : Sound { db with stores := db.stores.upsert σ' } := by
  refine h.of_upsert_store ?_
  rw [hgroup]
  exact h.stores σ (Keyed.Table.find?_eq_some_iff.mp hσ).1

theorem Sound.of_record (h : Sound db) {name : String} {reg : Registered String J}
    (howner : ∀ o ∈ reg.owner, ∀ g ∈ o.ownerGroup, g ∈ db.groups) : Sound (db.record name reg) := by
  refine { h with owners := ?_ }
  intro o ho
  cases hreg : reg.owner with
  | none =>
    rw [Db.record, hreg] at ho
    exact h.owners o ho
  | some owner =>
    rw [Db.record, hreg] at ho
    rcases Keyed.Table.mem_upsert.mp ho with rfl | ⟨ho, -⟩
    · exact howner owner hreg
    · exact h.owners o ho

/-- The owner of a registered name is the one in the table, so its group exists. -/
theorem Sound.registered_owner (h : Sound db) {name : String} :
    ∀ o ∈ (db.registered name).owner, ∀ g ∈ o.ownerGroup, g ∈ db.groups :=
  fun _ ho => h.owners _ (ownerOf_eq_some.mp ho)

section Registry

variable [DecidableEq J]

omit [DecidableEq J] in
/-- A name is claimed for the group of the publisher, or stays with its owner. -/
theorem claimed_group {reg : Registered String J} {publisher : Registry.Tenant String}
    {owner : Owner String} (h : Registry.claimModelOwner reg publisher = .ok owner) :
    reg.owner = some owner ∧ (∀ g ∈ owner.ownerGroup, g ≠ reg.platform → publisher.group = some g) ∨
      reg.owner = none ∧ owner.ownerGroup = publisher.group := by
  unfold Registry.claimModelOwner at h
  cases howner : reg.owner with
  | none =>
    rw [howner] at h
    cases h
    exact .inr ⟨rfl, rfl⟩
  | some o =>
    simp only [howner, bind_eq_ok_iff, refuseIf_eq_ok, pure_eq_ok] at h
    obtain ⟨-, hgroup, rfl⟩ := h
    exact .inl ⟨rfl, fun g hg hne => by_contra fun hnot => hgroup ⟨g, hg, hne, hnot⟩⟩

/-- What a publication does to a name of the registry. -/
theorem publishModel_cases {reg reg' : Registered String J} {publisher : Registry.Tenant String}
    {s : Registry.Store String J} (h : Registry.publishModel reg publisher s = .ok reg') :
    reg' = reg ∨ ∃ owner v, Registry.claimModelOwner reg publisher = .ok owner ∧
      v.version = ((reg.versions.head?).map Version.version).getD 0 + 1 ∧
      reg' = { reg with owner := some owner, versions := v :: reg.versions } := by
  unfold Registry.publishModel at h
  cases hversions : reg.versions with
  | nil =>
    simp only [hversions, bind_eq_ok_iff, pure_eq_ok] at h
    obtain ⟨owner, hclaim, rfl⟩ := h
    exact .inr ⟨owner, _, hclaim, rfl, rfl⟩
  | cons latest older =>
    simp only [hversions] at h
    split at h
    · exact .inl (pure_eq_ok.mp h)
    · simp only [bind_eq_ok_iff, pure_eq_ok] at h
      obtain ⟨owner, hclaim, rfl⟩ := h
      exact .inr ⟨owner, _, hclaim, rfl, rfl⟩

omit [DecidableEq J] in
theorem Sound.of_claim (h : Sound db) {name : String} {publisher : Registry.Tenant String}
    (hpub : ∀ g ∈ publisher.group, g ∈ db.groups) {owner : Owner String}
    (hclaim : Registry.claimModelOwner (db.registered name) publisher = .ok owner) :
    ∀ g ∈ owner.ownerGroup, g ∈ db.groups := by
  rcases claimed_group hclaim with ⟨hold, -⟩ | ⟨-, hnew⟩
  · exact h.registered_owner owner hold
  · exact fun g hg => hpub g (hnew ▸ hg)

variable (catalog : Registry.Database String J) (checks : BindingChecks)

omit [DecidableEq J] in
/-- A group that the tables know is a name. -/
theorem Sound.ne_empty (h : Sound db) {g : String} (hg : g ∈ db.groups) : g ≠ "" := by
  rintro rfl
  exact absurd (h.plain "" hg) (by decide)

/-- **Every transaction keeps the tables sound.** -/
theorem Sound.keeps : Keeps (step catalog checks) (Sound (J := J)) := by
  rintro db ⟨by_, call⟩ db' hs hstep
  have h := step_eq_some.mp hstep
  cases call with
  | createStore name =>
    obtain ⟨plain, -, rfl⟩ := createStore_eq_ok h
    exact hs.of_upsert_store (by rintro g ⟨⟩)
  | deleteStore name =>
    obtain rfl := deleteStore_eq_ok h
    exact { hs with stores := fun σ hσ => hs.stores σ (Keyed.Table.mem_of_mem_delete hσ) }
  | editModel store model =>
    obtain ⟨σ, hσ, rfl⟩ := editModel_eq_ok h
    refine hs.of_update_store hσ ?_
    rfl
  | createStoreGroup name description =>
    obtain ⟨hplain, -, rfl⟩ := createStoreGroup_eq_ok h
    -- the groups that there were stay
    have hmem : ∀ g, g ∈ db.groups → g ∈ db.groups ++ [name] := fun g => List.mem_append_left _
    refine ⟨?_, hmem _ hs.default_mem, fun σ hσ g hg => hmem g (hs.stores σ hσ g hg),
      fun b hb => (hs.bindings b hb).imp_right (hmem _), fun o ho g hg => hmem g (hs.owners o ho g hg), ?_⟩
    · intro g hg
      rcases List.mem_append.mp hg with hg | hg
      · exact hs.plain g hg
      · obtain rfl := List.mem_singleton.mp hg
        exact hplain
    · intro p hp
      obtain ⟨h₁, h₂, hne⟩ := hs.consumers p hp
      exact ⟨hmem _ h₁, hmem _ h₂, hne⟩
  | updateStoreGroup name description =>
    obtain rfl := updateStoreGroup_eq_ok h
    exact { hs with }
  | deleteStoreGroup name =>
    obtain ⟨deleted, hdelete⟩ := map_fst_eq_ok.mp h
    rcases deleteStoreGroup_eq_ok hdelete with ⟨rfl, -, -⟩ | ⟨hdefault, -, hstores, hbindings, howners, -, rfl⟩
    · exact hs
    -- nothing names the group that is deleted
    have hmem : ∀ g, g ∈ db.groups → g ≠ name → g ∈ db.groups.filter (· ≠ name) :=
      fun g hg hne => List.mem_filter.mpr ⟨hg, by simpa using hne⟩
    refine ⟨fun g hg => hs.plain g (List.mem_filter.mp hg).1, hmem _ hs.default_mem hdefault.symm, ?_, ?_, ?_, ?_⟩
    · exact fun σ hσ g hg => hmem g (hs.stores σ hσ g hg) fun heq => hstores σ hσ (heq ▸ hg)
    · exact fun b hb => (hs.bindings b hb).imp_right fun hg => hmem _ hg (hbindings b hb)
    · exact fun o ho g hg => hmem g (hs.owners o ho g hg) fun heq => howners o ho (heq ▸ hg)
    · intro p hp
      obtain ⟨hp, hne⟩ := List.mem_filter.mp hp
      obtain ⟨hne₁, hne₂⟩ := of_decide_eq_true hne
      obtain ⟨h₁, h₂, hdiff⟩ := hs.consumers p hp
      exact ⟨hmem _ h₁ hne₁, hmem _ h₂ hne₂, hdiff⟩
  | setStoreGroup store group =>
    obtain ⟨σ, hσ, hknown, ⟨rfl, -⟩ | ⟨-, rfl⟩⟩ := setStoreGroup_eq_ok h
    · exact hs
    · exact hs.of_upsert_store hknown
  | grantModelConsumer owner consumer =>
    obtain ⟨howner, hconsumer, hne, ⟨rfl, -⟩ | ⟨-, rfl⟩⟩ := grantModelConsumer_eq_ok h
    · exact hs
    · refine { hs with consumers := ?_ }
      intro p hp
      rcases List.mem_append.mp hp with hp | hp
      · exact hs.consumers p hp
      · obtain rfl := List.mem_singleton.mp hp
        exact ⟨howner, hconsumer, hne⟩
  | revokeModelConsumer owner consumer =>
    obtain rfl := Except.ok.inj h
    unfold revokeModelConsumer
    split
    · exact { hs with consumers := fun p hp => hs.consumers p (List.mem_filter.mp hp).1 }
    · exact hs
  | setModelOwner name group store =>
    obtain ⟨hknown, rfl⟩ := setModelOwner_eq_ok h
    refine { hs with owners := ?_ }
    intro o ho
    rcases Keyed.Table.mem_upsert.mp ho with rfl | ⟨ho, -⟩
    · exact hknown
    · exact hs.owners o ho
  | publish name store =>
    obtain ⟨σ, reg, hσ, hpublish, rfl⟩ := publish_eq_ok h
    refine hs.of_record ?_
    rcases publishModel_cases hpublish with rfl | ⟨owner, v, hclaim, -, rfl⟩
    · exact hs.registered_owner
    · rintro _ ⟨⟩
      exact hs.of_claim (hs.stores σ (Keyed.Table.find?_eq_some_iff.mp hσ).1) hclaim
  | publishDefinition name d =>
    rcases publishDefinition_eq_ok h with rfl | ⟨owner, n, hclaim, -, rfl⟩
    · exact hs
    · refine hs.of_record ?_
      rintro _ ⟨⟩
      refine hs.of_claim ?_ hclaim
      rintro _ ⟨⟩
      exact hs.default_mem
  | apply now store name version =>
    obtain ⟨σ, model, v, hσ, -, rfl⟩ := apply_eq_ok h
    refine hs.of_update_store hσ ?_
    rfl
  | setIssuerBinding b expectGroup expectExists =>
    obtain ⟨row, -, hput⟩ := setIssuerBinding_eq_ok h
    obtain ⟨hvalid, -, action, -, rfl⟩ := putBinding_eq_ok hput
    refine { hs with bindings := ?_ }
    intro o ho
    rcases Keyed.Table.mem_upsert.mp ho with rfl | ⟨ho, -⟩
    · exact validateIssuerBinding_group hvalid
    · exact hs.bindings o ho
  | deleteIssuerBinding ref expectGroup =>
    obtain ⟨deleted, hdelete⟩ := map_fst_eq_ok.mp h
    rcases deleteIssuerBinding_eq_ok hdelete with ⟨rfl, -⟩ | ⟨o, -, -, -, rfl⟩
    · exact hs
    · exact { hs with bindings := fun b hb => hs.bindings b (Keyed.Table.mem_of_mem_delete hb) }

/-! ## The trail of the bindings -/

omit catalog in
/-- The trail of the bindings: an entry gives the binding of its issuer, or none. -/
def bindingJournal (J : Type) : Journal (Db J) BindingEntry (String → Option Binding) where
  entries := Db.bindingTrail
  view db iss := (db.findBinding iss).map BindingRow.row
  read v e := Function.update v e.row.issuer (if e.action = .delete then none else some e.row)

omit [DecidableEq J] catalog in
/-- A row of a store that keeps its group leaves the groups of all stores. -/
theorem groupOf_of_update_store {s : String} {σ σ' : StoreRow J} (hσ : db.findStore s = some σ)
    (hname : σ'.name = σ.name) (hgroup : σ'.group = σ.group) (hstores : db'.stores = db.stores.upsert σ')
    (t : String) : db'.groupOf t = db.groupOf t := by
  rw [groupOf_upsert hstores, hname, hgroup]
  split
  · rename_i ht
    rw [← ht, Db.groupOf, findStore_name hσ, hσ]
    rfl
  · rfl

omit [DecidableEq J] catalog in
/-- So does a new store in no group. -/
theorem groupOf_of_create_store {σ : StoreRow J} (hfree : db.findStore σ.name = none)
    (hgroup : σ.group = none) (hstores : db'.stores = db.stores.upsert σ) (t : String) :
    db'.groupOf t = db.groupOf t := by
  rw [groupOf_upsert hstores]
  split
  · rename_i ht
    rw [hgroup, Db.groupOf, ← ht, hfree]
    rfl
  · rfl

/-- A transaction leaves the bindings. The group of a store changes with a new revision only, or since the
store is deleted. -/
structure LeavesBindings (db db' : Db J) (call : Call J) : Prop where
  bindings : db'.bindings = db.bindings
  trail : db'.bindingTrail = db.bindingTrail
  revision_le : db.revision ≤ db'.revision
  reach : ∀ s, db'.groupOf s ≠ db.groupOf s → db.revision < db'.revision ∨ call = .deleteStore s

omit [DecidableEq J] catalog in
theorem LeavesBindings.of_groupOf {call : Call J} (hbindings : db'.bindings = db.bindings)
    (htrail : db'.bindingTrail = db.bindingTrail) (hrevision : db'.revision = db.revision)
    (hof : ∀ s, db'.groupOf s = db.groupOf s) : LeavesBindings db db' call :=
  ⟨hbindings, htrail, hrevision.ge, fun s hne => absurd (hof s) hne⟩

/-- What a transaction does to the bindings: nothing, or a row is written or deleted, with an entry and a
new revision. -/
theorem bindings_of_step {e : Event J} (h : step catalog checks db e = some db') :
    LeavesBindings db db' e.call ∨
      (∃ action row b expectGroup expectExists, e.call = .setIssuerBinding b expectGroup expectExists ∧
        (∀ o, db.findBinding row.row.issuer = some o →
          expectExists ≠ some false ∧ expects expectGroup o = true) ∧
        action ≠ BindingAction.delete ∧ db' = writeBinding e.performedBy action row db) ∨
      ∃ o ref expectGroup, e.call = .deleteIssuerBinding ref expectGroup ∧ expects expectGroup o = true ∧
        db.findBinding o.row.issuer = some o ∧
        db' = issuerBindingsChanged e.performedBy .delete o.row
          { db with bindings := db.bindings.delete fun b => b.row.issuer = o.row.issuer } := by
  obtain ⟨by_, call⟩ := e
  replace h := step_eq_some.mp h
  cases call with
  | setIssuerBinding b expectGroup expectExists =>
    obtain ⟨row, -, hput⟩ := setIssuerBinding_eq_ok h
    obtain ⟨-, hexp, action, hne, rfl⟩ := putBinding_eq_ok hput
    exact .inr (.inl ⟨action, row, b, expectGroup, expectExists, rfl, hexp, hne, rfl⟩)
  | deleteIssuerBinding ref expectGroup =>
    obtain ⟨deleted, hdelete⟩ := map_fst_eq_ok.mp h
    rcases deleteIssuerBinding_eq_ok hdelete with ⟨rfl, -⟩ | ⟨o, ho, hexp, -, rfl⟩
    · exact .inl (.of_groupOf rfl rfl rfl fun _ => rfl)
    · exact .inr (.inr ⟨o, ref, expectGroup, rfl, hexp, ho, rfl⟩)
  -- the others write other tables, and a move counts the revision up
  | createStore name =>
    obtain ⟨plain, hfree, rfl⟩ := createStore_eq_ok h
    exact .inl (.of_groupOf rfl rfl rfl (groupOf_of_create_store hfree rfl rfl))
  | deleteStore name =>
    obtain rfl := deleteStore_eq_ok h
    refine .inl ⟨rfl, rfl, le_rfl, fun s hne => .inr ?_⟩
    by_cases hs : name = s
    · rw [hs]
    · refine absurd ?_ hne
      rw [Db.groupOf, findStore_delete rfl, if_neg hs]
      rfl
  | editModel store model =>
    obtain ⟨σ, hσ, rfl⟩ := editModel_eq_ok h
    exact .inl (.of_groupOf rfl rfl rfl (groupOf_of_update_store hσ (by rfl) (by rfl) rfl))
  | createStoreGroup name description =>
    obtain ⟨-, -, rfl⟩ := createStoreGroup_eq_ok h
    exact .inl (.of_groupOf rfl rfl rfl fun _ => rfl)
  | updateStoreGroup name description =>
    obtain rfl := updateStoreGroup_eq_ok h
    exact .inl (.of_groupOf rfl rfl rfl fun _ => rfl)
  | deleteStoreGroup name =>
    obtain ⟨deleted, hdelete⟩ := map_fst_eq_ok.mp h
    rcases deleteStoreGroup_eq_ok hdelete with ⟨rfl, -, -⟩ | ⟨-, -, -, -, -, -, rfl⟩
    · exact .inl (.of_groupOf rfl rfl rfl fun _ => rfl)
    · exact .inl (.of_groupOf rfl rfl rfl fun _ => rfl)
  | setStoreGroup store group =>
    obtain ⟨σ, -, -, ⟨rfl, -⟩ | ⟨-, rfl⟩⟩ := setStoreGroup_eq_ok h
    · exact .inl (.of_groupOf rfl rfl rfl fun _ => rfl)
    · exact .inl ⟨rfl, rfl, Nat.le_succ _, fun _ _ => .inl (Nat.lt_succ_self _)⟩
  | grantModelConsumer owner consumer =>
    obtain ⟨-, -, -, ⟨rfl, -⟩ | ⟨-, rfl⟩⟩ := grantModelConsumer_eq_ok h
    · exact .inl (.of_groupOf rfl rfl rfl fun _ => rfl)
    · exact .inl (.of_groupOf rfl rfl rfl fun _ => rfl)
  | revokeModelConsumer owner consumer =>
    obtain rfl := Except.ok.inj h
    unfold revokeModelConsumer
    split
    · exact .inl (.of_groupOf rfl rfl rfl fun _ => rfl)
    · exact .inl (.of_groupOf rfl rfl rfl fun _ => rfl)
  | setModelOwner name group store =>
    obtain ⟨-, rfl⟩ := setModelOwner_eq_ok h
    exact .inl (.of_groupOf rfl rfl rfl fun _ => rfl)
  | publish name store =>
    obtain ⟨σ, reg, -, -, rfl⟩ := publish_eq_ok h
    exact .inl (.of_groupOf rfl rfl rfl fun _ => rfl)
  | publishDefinition name d =>
    rcases publishDefinition_eq_ok h with rfl | ⟨owner, n, -, -, rfl⟩
    · exact .inl (.of_groupOf rfl rfl rfl fun _ => rfl)
    · exact .inl (.of_groupOf rfl rfl rfl fun _ => rfl)
  | apply now store name version =>
    obtain ⟨σ, model, v, hσ, -, rfl⟩ := apply_eq_ok h
    exact .inl (.of_groupOf rfl rfl rfl (groupOf_of_update_store hσ (by rfl) (by rfl) rfl))

theorem bindingJournal_complete :
    (bindingJournal J).Complete (step catalog checks) (fun _ => True) fun _ _ => True := by
  intro db e db' _ _ hstep
  rcases bindings_of_step catalog checks hstep with
    hleaves | ⟨action, row, -, -, -, -, -, hne, rfl⟩ | ⟨o, -, -, -, -, -, rfl⟩
  · refine .of_eq hleaves.trail (funext fun iss => ?_)
    simp only [bindingJournal, Db.findBinding, hleaves.bindings]
  · refine ⟨[⟨action, e.performedBy, row.row⟩], rfl, funext fun iss => ?_⟩
    have hfind : (writeBinding e.performedBy action row db).findBinding iss =
        if row.row.issuer = iss then some row else db.findBinding iss := findBinding_upsert rfl iss
    simp only [bindingJournal, hfind, List.foldl_cons, List.foldl_nil, if_neg hne, Function.update_apply,
      eq_comm (a := iss)]
    split <;> rfl
  · refine ⟨[⟨.delete, e.performedBy, o.row⟩], rfl, funext fun iss => ?_⟩
    have hfind : (issuerBindingsChanged e.performedBy .delete o.row
        { db with bindings := db.bindings.delete fun b => b.row.issuer = o.row.issuer }).findBinding iss =
        if o.row.issuer = iss then none else db.findBinding iss := findBinding_delete rfl iss
    simp only [bindingJournal, hfind, List.foldl_cons, List.foldl_nil, if_true, Function.update_apply,
      eq_comm (a := iss)]
    split <;> rfl

/-- Every entry of the trail of the bindings has counted the revision up. -/
theorem counted_keeps : Keeps (step catalog checks) fun db : Db J => db.bindingTrail.length ≤ db.revision := by
  intro db e db' hle hstep
  rcases bindings_of_step catalog checks hstep with
    hleaves | ⟨action, row, -, -, -, -, -, -, rfl⟩ | ⟨o, -, -, -, -, -, rfl⟩
  · show db'.bindingTrail.length ≤ db'.revision
    rw [hleaves.trail]
    exact hle.trans hleaves.revision_le
  · show (db.bindingTrail ++ [_]).length ≤ db.revision + 1
    simpa using hle
  · show (db.bindingTrail ++ [_]).length ≤ db.revision + 1
    simpa using hle

/-- **The trail of the bindings, read from the start, gives the bindings**, whatever the transactions on
the stores, the groups, the registry and the bindings and whatever they refuse; and there are at least as
many revisions as entries. -/
theorem binding_trail_replays {es : List (Event J)}
    (hrun : run (step catalog checks) (Db.installed J) es = some db) :
    (∀ iss, (db.findBinding iss).map BindingRow.row =
      db.bindingTrail.foldl (bindingJournal J).read (fun _ => none) iss) ∧
    db.bindingTrail.length ≤ db.revision := by
  have hall : Along (step catalog checks) (fun _ _ => True) (Db.installed J) es :=
    Transition.along_of_forall fun _ _ => trivial
  obtain ⟨new, hentries, hview⟩ :=
    (bindingJournal_complete catalog checks).replays (fun _ _ _ _ _ => trivial) trivial hall hrun
  refine ⟨fun iss => ?_, (counted_keeps catalog checks).run (le_refl 0) hrun⟩
  have htrail : db.bindingTrail = new := hentries
  rw [htrail]
  exact congrFun hview iss

/-- Nothing changes in lower case, and every binding has its shape. -/
def plainChecks : BindingChecks := ⟨id, fun _ => true⟩

/-- The identity provider of a group, with its own keys. -/
def tenantBinding : Binding where
  issuer := "https://idp.example"
  aliasName := "idp"
  stores := []
  dbRoles := []
  clientDbRoles := []
  pepClients := []
  enabled := true
  storeGroup := "tenant"
  jwksUrl := "https://idp.example/keys"
  audience := "authz"
  audiences := []
  admin := []

/-- A group gets its identity provider, switches it off and gives it up. -/
def trusting : List (Event Unit) :=
  [⟨"ops", .createStoreGroup "tenant" ""⟩, ⟨"ann", .setIssuerBinding tenantBinding "*" (some false)⟩,
    ⟨"ann", .setIssuerBinding { tenantBinding with enabled := false } "tenant" (some true)⟩,
    ⟨"ann", .deleteIssuerBinding "idp" "tenant"⟩]

theorem binding_trail_replays_trusting : ∃ db,
    run (step Registry.lenientDatabase plainChecks) (Db.installed Unit) trusting = some db ∧
    (∀ iss, (db.findBinding iss).map BindingRow.row =
      db.bindingTrail.foldl (bindingJournal Unit).read (fun _ => none) iss) ∧
    db.bindingTrail.length ≤ db.revision := by
  have hrun : (run (step Registry.lenientDatabase plainChecks) (Db.installed Unit) trusting).isSome := rfl
  obtain ⟨db, hdb⟩ := Option.isSome_iff_exists.mp hrun
  exact ⟨db, hdb, binding_trail_replays Registry.lenientDatabase plainChecks hdb⟩

/-! ## The trail of the groups -/

/-- What the trail of the groups is about. -/
@[ext]
structure GroupView where
  groups : Set String
  groupOf : String → Option String
  consumers : Set (String × String)

/-- The grant that an entry on a grant names. -/
def GroupEntry.grant (e : GroupEntry) : Set (String × String) :=
  { p | p.1 = e.groupName ∧ e.description = some (consumerText p.2) }

/-- How an entry is read. -/
def GroupView.read (v : GroupView) (e : GroupEntry) : GroupView :=
  match e.action with
  | .create => { v with groups := insert e.groupName v.groups }
  | .delete =>
    { v with
      groups := v.groups \ {e.groupName}
      consumers := { p ∈ v.consumers | p.1 ≠ e.groupName ∧ p.2 ≠ e.groupName } }
  | .attach => { v with groupOf := fun s => if e.store = some s then some e.groupName else v.groupOf s }
  | .detach => { v with groupOf := fun s => if e.store = some s then none else v.groupOf s }
  | .relate => { v with consumers := v.consumers ∪ e.grant }
  | .unrelate => { v with consumers := v.consumers \ e.grant }
  | .update | .own => v

omit [DecidableEq J] catalog checks in
/-- The trail of the groups. -/
def groupJournal (J : Type) : Journal (Db J) GroupEntry GroupView where
  entries := Db.groupTrail
  view db := ⟨{ g | g ∈ db.groups }, db.groupOf, { p | p ∈ db.consumers }⟩
  read := GroupView.read

/-- A call that deletes a store deletes one that is in no group. -/
def DetachesFirst (db : Db J) (e : Event J) : Prop :=
  ∀ name, e.call = .deleteStore name → db.groupOf name = none

theorem consumerText_injective : Function.Injective consumerText := by
  intro a b h
  exact String.toList_inj.mp (by simpa [consumerText, String.toList_append] using congrArg String.toList h)

theorem mem_grant_relate {by_ owner consumer : String} {action : GroupAction} {p : String × String} :
    p ∈ (⟨action, by_, owner, none, some (consumerText consumer)⟩ : GroupEntry).grant ↔
      p = (owner, consumer) := by
  obtain ⟨a, b⟩ := p
  simp [GroupEntry.grant, consumerText_injective.eq_iff, eq_comm]

omit [DecidableEq J] in
/-- A transaction that touches no group, no grant and no membership. -/
theorem extends_of_groupOf (hgroups : db'.groups = db.groups) (hconsumers : db'.consumers = db.consumers)
    (htrail : db'.groupTrail = db.groupTrail) (hof : ∀ s, db'.groupOf s = db.groupOf s) :
    (groupJournal J).Extends db db' := by
  refine .of_eq htrail ?_
  simp only [groupJournal, hgroups, hconsumers, funext hof]

omit [DecidableEq J] in
/-- A store is moved, with the entries of the move. -/
theorem extends_of_move {by_ store : String} {σ : StoreRow J} (hσ : db.findStore store = some σ)
    {new : Option String} :
    (groupJournal J).Extends db { db with
      stores := db.stores.upsert { σ with group := new }
      revision := db.revision + 1
      groupTrail := db.groupTrail ++ moveEntries by_ store σ.group new } := by
  refine ⟨moveEntries by_ store σ.group new, rfl, ?_⟩
  have hof : ∀ s, Db.groupOf { db with
      stores := db.stores.upsert { σ with group := new }
      revision := db.revision + 1
      groupTrail := db.groupTrail ++ moveEntries by_ store σ.group new } s =
      if store = s then new else db.groupOf s := fun s => by
    rw [groupOf_upsert rfl]
    show (if σ.name = s then new else db.groupOf s) = _
    rw [findStore_name hσ]
  have hold : db.groupOf store = σ.group := by rw [Db.groupOf, hσ]; rfl
  cases hgroup : σ.group with
  | none =>
    cases new with
    | none =>
      refine GroupView.ext rfl (funext fun s => ?_) rfl
      refine (hof s).trans ?_
      show _ = db.groupOf s
      split
      · rename_i hs
        rw [← hs, hold, hgroup]
      · rfl
    | some g =>
      refine GroupView.ext rfl (funext fun s => ?_) rfl
      refine (hof s).trans ?_
      simp [moveEntries, GroupView.read, groupJournal]
  | some old =>
    cases new with
    | none =>
      refine GroupView.ext rfl (funext fun s => ?_) rfl
      refine (hof s).trans ?_
      simp [moveEntries, GroupView.read, groupJournal]
    | some g =>
      refine GroupView.ext rfl (funext fun s => ?_) rfl
      refine (hof s).trans ?_
      by_cases hs : store = s <;> simp [moveEntries, GroupView.read, groupJournal, hs]

/-- **The trail of the groups is complete along runs that delete ungrouped stores only.** -/
theorem groupJournal_complete :
    (groupJournal J).Complete (step catalog checks) (fun _ => True) DetachesFirst := by
  rintro db ⟨by_, call⟩ db' - hdetach hstep
  have h := step_eq_some.mp hstep
  cases call with
  | createStore name =>
    obtain ⟨plain, hfree, rfl⟩ := createStore_eq_ok h
    exact extends_of_groupOf rfl rfl rfl (groupOf_of_create_store hfree rfl rfl)
  | deleteStore name =>
    obtain rfl := deleteStore_eq_ok h
    refine extends_of_groupOf rfl rfl rfl fun s => ?_
    rw [Db.groupOf, findStore_delete rfl]
    split
    · rename_i hs
      rw [← hs, hdetach name rfl]
      rfl
    · rfl
  | editModel store model =>
    obtain ⟨σ, hσ, rfl⟩ := editModel_eq_ok h
    exact extends_of_groupOf rfl rfl rfl (groupOf_of_update_store hσ (by rfl) (by rfl) rfl)
  | createStoreGroup name description =>
    obtain ⟨-, -, rfl⟩ := createStoreGroup_eq_ok h
    refine ⟨[⟨.create, by_, name, none, nullIfEmpty description⟩], rfl, GroupView.ext ?_ rfl rfl⟩
    ext g
    simp [groupJournal, storeGroupAudit, GroupView.read, or_comm]
  | updateStoreGroup name description =>
    obtain rfl := updateStoreGroup_eq_ok h
    exact ⟨[⟨.update, by_, name, none, description⟩], rfl, rfl⟩
  | deleteStoreGroup name =>
    obtain ⟨deleted, hdelete⟩ := map_fst_eq_ok.mp h
    rcases deleteStoreGroup_eq_ok hdelete with ⟨rfl, -, -⟩ | ⟨-, -, -, -, -, -, rfl⟩
    · exact .refl _ _
    · refine ⟨[⟨.delete, by_, name, none, none⟩], rfl, GroupView.ext ?_ rfl ?_⟩
      · ext g
        simp [groupJournal, storeGroupAudit, GroupView.read]
      · ext p
        simp [groupJournal, storeGroupAudit, GroupView.read]
  | setStoreGroup store group =>
    obtain ⟨σ, hσ, -, ⟨rfl, -⟩ | ⟨-, rfl⟩⟩ := setStoreGroup_eq_ok h
    · exact .refl _ _
    · exact extends_of_move hσ
  | grantModelConsumer owner consumer =>
    obtain ⟨-, -, -, ⟨rfl, -⟩ | ⟨-, rfl⟩⟩ := grantModelConsumer_eq_ok h
    · exact .refl _ _
    · refine ⟨[⟨.relate, by_, owner, none, some (consumerText consumer)⟩], rfl, GroupView.ext rfl rfl ?_⟩
      ext p
      show p ∈ db.consumers ++ [(owner, consumer)] ↔ p ∈ db.consumers ∨ p ∈ GroupEntry.grant _
      rw [mem_grant_relate, List.mem_append, List.mem_singleton]
  | revokeModelConsumer owner consumer =>
    obtain rfl := Except.ok.inj h
    unfold revokeModelConsumer
    split
    · refine ⟨[⟨.unrelate, by_, owner, none, some (consumerText consumer)⟩], rfl, GroupView.ext rfl rfl ?_⟩
      ext p
      show p ∈ db.consumers.filter (· ≠ (owner, consumer)) ↔ p ∈ db.consumers ∧ p ∉ GroupEntry.grant _
      rw [mem_grant_relate, List.mem_filter, decide_eq_true_iff]
    · exact .refl _ _
  | setModelOwner name group store =>
    obtain ⟨-, rfl⟩ := setModelOwner_eq_ok h
    exact ⟨[⟨.own, by_, group.getD "default", store, some ("model " ++ name)⟩], rfl, rfl⟩
  | publish name store =>
    obtain ⟨σ, reg, -, -, rfl⟩ := publish_eq_ok h
    exact .of_eq rfl rfl
  | publishDefinition name d =>
    rcases publishDefinition_eq_ok h with rfl | ⟨owner, n, -, -, rfl⟩
    · exact .refl _ _
    · exact .of_eq rfl rfl
  | apply now store name version =>
    obtain ⟨σ, model, v, hσ, -, rfl⟩ := apply_eq_ok h
    exact extends_of_groupOf rfl rfl rfl (groupOf_of_update_store hσ (by rfl) (by rfl) rfl)
  | setIssuerBinding b expectGroup expectExists =>
    obtain ⟨row, -, hput⟩ := setIssuerBinding_eq_ok h
    obtain ⟨-, -, action, -, rfl⟩ := putBinding_eq_ok hput
    exact .of_eq rfl rfl
  | deleteIssuerBinding ref expectGroup =>
    obtain ⟨deleted, hdelete⟩ := map_fst_eq_ok.mp h
    rcases deleteIssuerBinding_eq_ok hdelete with ⟨rfl, -⟩ | ⟨o, -, -, -, rfl⟩
    · exact .refl _ _
    · exact .of_eq rfl rfl

/-- **The trail of the groups, read from a new installation, gives the groups, the group of every store and
the grants**, when stores leave their group before they are deleted. -/
theorem group_trail_replays {es : List (Event J)}
    (hrun : run (step catalog checks) (Db.installed J) es = some db)
    (hok : Along (step catalog checks) DetachesFirst (Db.installed J) es) :
    db.groupTrail.foldl GroupView.read ⟨{"default"}, fun _ => none, ∅⟩ =
      ⟨{ g | g ∈ db.groups }, db.groupOf, { p | p ∈ db.consumers }⟩ := by
  obtain ⟨new, hentries, hview⟩ :=
    (groupJournal_complete catalog checks).replays (fun _ _ _ _ _ => trivial) trivial hok hrun
  have htrail : db.groupTrail = new := hentries
  rw [htrail]
  have hstart : (groupJournal J).view (Db.installed J) = ⟨{"default"}, fun _ => none, ∅⟩ := by
    refine GroupView.ext ?_ rfl ?_
    · ext g
      simp [groupJournal, Db.installed]
    · ext p
      simp [groupJournal, Db.installed]
  rw [← hstart]
  exact hview.symm

/-- The group `tenant` publishes a model and shares its models with the group `partner`, which has a store. -/
def sharing : List (Event Unit) :=
  [⟨"ops", .createStore "source"⟩, ⟨"ops", .createStore "shop"⟩, ⟨"ops", .createStoreGroup "tenant" ""⟩,
    ⟨"ops", .createStoreGroup "partner" ""⟩, ⟨"ops", .setStoreGroup "source" (some "tenant")⟩,
    ⟨"ops", .setStoreGroup "shop" (some "partner")⟩, ⟨"ops", .grantModelConsumer "tenant" "partner"⟩,
    ⟨"ann", .editModel "source" Registry.directStore⟩, ⟨"ann", .publish "docs" "source"⟩]

theorem detachesFirst_sharing :
    Along (step Registry.lenientDatabase plainChecks) DetachesFirst (Db.installed Unit) sharing := by
  have hkeeps : Along (step Registry.lenientDatabase plainChecks)
      (fun _ e => ∀ name, e.call ≠ .deleteStore name) (Db.installed Unit) sharing :=
    Transition.along_of_forall (by simp [sharing])
  exact hkeeps.mono fun _ _ hne name hcall => absurd hcall (hne name)

theorem group_trail_replays_sharing : ∃ db,
    run (step Registry.lenientDatabase plainChecks) (Db.installed Unit) sharing = some db ∧
    db.groupTrail.foldl GroupView.read ⟨{"default"}, fun _ => none, ∅⟩ =
      ⟨{ g | g ∈ db.groups }, db.groupOf, { p | p ∈ db.consumers }⟩ := by
  refine ⟨_, rfl, ?_⟩
  exact group_trail_replays Registry.lenientDatabase plainChecks rfl detachesFirst_sharing

/-- **A store that is deleted in its group stays in the trail of the group**, and so does a store of the
same name that is created afterwards and is in no group. -/
theorem deleted_store_stays_in_trail : ∃ db,
    run (step Registry.lenientDatabase plainChecks) (Db.installed Unit) (sharing ++
      [⟨"ops", .deleteStore "shop"⟩, ⟨"ops", .createStore "shop"⟩]) = some db ∧
    db.groupOf "shop" = none ∧
    (db.groupTrail.foldl GroupView.read ⟨{"default"}, fun _ => none, ∅⟩).groupOf "shop" = some "partner" :=
  ⟨_, rfl, rfl, rfl⟩

/-! ## What the trail of the groups shows -/

/-- An entry that takes a grant back: its revocation, or the deletion of one of the two groups. -/
def GroupEntry.Revokes (e : GroupEntry) (owner consumer : String) : Prop :=
  (e.action = .unrelate ∧ (owner, consumer) ∈ e.grant) ∨
    e.action = .delete ∧ (owner = e.groupName ∨ consumer = e.groupName)

/-- An entry that takes a store out of a group, or puts it into another one. -/
def GroupEntry.Leaves (e : GroupEntry) (store group : String) : Prop :=
  e.store = some store ∧ (e.action = .detach ∨ e.action = .attach ∧ e.groupName ≠ group)

/-- The trail has a grant between the groups that no later entry takes back. -/
def Granted (trail : List GroupEntry) (owner consumer : String) : Prop :=
  ∃ before e after, trail = before ++ e :: after ∧
    (e.action = .relate ∧ (owner, consumer) ∈ e.grant) ∧ ∀ e' ∈ after, ¬ e'.Revokes owner consumer

/-- The trail attaches the store to the group, and no later entry takes it out. -/
def Attached (trail : List GroupEntry) (store group : String) : Prop :=
  ∃ before e after, trail = before ++ e :: after ∧
    (e.action = .attach ∧ e.groupName = group ∧ e.store = some store) ∧
    ∀ e' ∈ after, ¬ e'.Leaves store group

theorem granted_of_read {v : GroupView} {trail : List GroupEntry} {owner consumer : String}
    (hv : (owner, consumer) ∉ v.consumers)
    (h : (owner, consumer) ∈ (trail.foldl GroupView.read v).consumers) : Granted trail owner consumer := by
  refine Transition.exists_last_cause (P := fun v : GroupView => (owner, consumer) ∈ v.consumers) ?_ ?_ hv h
  · intro v e hbefore hafter
    unfold GroupView.read at hafter
    cases haction : e.action <;> simp only [haction] at hafter
    case relate => exact ⟨rfl, hafter.resolve_left hbefore⟩
    case delete => exact absurd hafter.1 hbefore
    case unrelate => exact absurd hafter.1 hbefore
    all_goals exact absurd hafter hbefore
  · rintro v e (⟨haction, hgrant⟩ | ⟨haction, hnamed⟩) hafter
    · simp only [GroupView.read, haction] at hafter
      exact hafter.2 hgrant
    · simp only [GroupView.read, haction] at hafter
      rcases hnamed with hnamed | hnamed
      · exact hafter.2.1 hnamed
      · exact hafter.2.2 hnamed

theorem attached_of_read {v : GroupView} {trail : List GroupEntry} {store group : String}
    (hv : v.groupOf store ≠ some group) (h : (trail.foldl GroupView.read v).groupOf store = some group) :
    Attached trail store group := by
  refine Transition.exists_last_cause (P := fun v : GroupView => v.groupOf store = some group) ?_ ?_ hv h
  · intro v e hbefore hafter
    unfold GroupView.read at hafter
    cases haction : e.action <;> simp only [haction] at hafter
    case attach =>
      split at hafter
      · rename_i hstore
        exact ⟨rfl, Option.some.inj hafter, hstore⟩
      · exact absurd hafter hbefore
    case detach =>
      split at hafter
      · cases hafter
      · exact absurd hafter hbefore
    all_goals exact absurd hafter hbefore
  · rintro v e ⟨hstore, haction | ⟨haction, hne⟩⟩ hafter
    · simp [GroupView.read, haction, hstore] at hafter
    · simp only [GroupView.read, haction, hstore, if_true] at hafter
      exact hne (Option.some.inj hafter)

/-- **Whoever applies a model of a group does so as a store of that group, or under a grant to its own
group; and both are in the trail**, the attachment and the grant, with nothing behind them that takes them
back. -/
theorem applied_under_grant {es : List (Event J)}
    (hrun : run (step catalog checks) (Db.installed J) es = some db)
    (hok : Along (step catalog checks) DetachesFirst (Db.installed J) es) {by_ : String} {now : ℤ}
    {store name : String} {version : Option ℕ}
    (happly : step catalog checks db ⟨by_, .apply now store name version⟩ = some db')
    {o : Owner String} (howner : db.ownerOf name = some o) {owner : String}
    (hgroup : o.ownerGroup = some owner) (hne : owner ≠ "default") :
    ∃ group, Attached db.groupTrail store group ∧ (group = owner ∨ Granted db.groupTrail owner group) := by
  have hread := group_trail_replays catalog checks hrun hok
  obtain ⟨σ, model, v, hσ, hmodel, -⟩ := apply_eq_ok (step_eq_some.mp happly)
  have hof : db.groupOf store = σ.group := by rw [Db.groupOf, hσ]; rfl
  have happlicable : (db.registered name).Applicable ⟨store, σ.group⟩ := by
    cases hv : (db.registered name).resolve version with
    | none => simp [Registry.applyModel, hv] at hmodel
    | some w => exact ((Registry.applyModel_eq_ok_iff hv).mp hmodel).1
  have hattached : ∀ g, σ.group = some g → Attached db.groupTrail store g := by
    intro g hg
    have hstart : GroupView.groupOf ⟨{"default"}, fun _ => none, ∅⟩ store ≠ some g := by
      rintro ⟨⟩
    refine attached_of_read hstart ?_
    rw [hread]
    exact hof.trans hg
  rcases happlicable o howner owner hgroup with hplatform | hown | ⟨group, hg, hshared⟩
  · exact absurd hplatform hne
  · exact ⟨owner, hattached owner hown, .inl rfl⟩
  · refine ⟨group, hattached group hg, .inr ?_⟩
    have hstart : (owner, group) ∉ GroupView.consumers ⟨{"default"}, fun _ => none, ∅⟩ := Set.notMem_empty _
    refine granted_of_read hstart ?_
    rw [hread]
    exact hshared

/-- The store of the group `partner` applies the model of the group `tenant`. -/
theorem applied_under_grant_sharing : ∃ db db',
    run (step Registry.lenientDatabase plainChecks) (Db.installed Unit) sharing = some db ∧
    step Registry.lenientDatabase plainChecks db ⟨"bob", .apply 0 "shop" "docs" none⟩ = some db' ∧
    ∃ group, Attached db.groupTrail "shop" group ∧
      (group = "tenant" ∨ Granted db.groupTrail "tenant" group) := by
  have happlied : ((run (step Registry.lenientDatabase plainChecks) (Db.installed Unit) sharing).bind fun db =>
      (step Registry.lenientDatabase plainChecks db ⟨"bob", .apply 0 "shop" "docs" none⟩).bind fun _ =>
        (db.ownerOf "docs").bind Owner.ownerGroup) = some "tenant" := rfl
  simp only [Option.bind_eq_some_iff] at happlied
  obtain ⟨db, hrun, db', happly, o, howner, hgroup⟩ := happlied
  refine ⟨db, db', hrun, happly, ?_⟩
  exact applied_under_grant Registry.lenientDatabase plainChecks hrun detachesFirst_sharing happly howner
    hgroup (by decide)

end Registry

end Groups

end PgAuthz
