import PgAuthz.Groups.Trails

/-!
# Who may publish, and what was published

A name of the registry belongs to whoever published it first: a group, a store in no group, or the
platform. A name that belongs to a group other than the platform's stays with it, whatever happens to
stores and groups, until `set_model_owner` moves it: its group cannot be deleted, and every new version
comes from a store that is in the group at that moment.

Versions are only added. They are numbered from 1 without a gap, and what a number resolves to once, it
resolves to for good.

An administrator of a group who writes a binding says which group the row that was read belongs to. The
rows of other groups are out of reach then, in every interleaving with the calls of other administrators.

## Main definitions

* `PublishedFrom`: a new version of a name comes from a store of a group
* `Numbered`: versions from 1 on, the latest first
* `Confined`: the calls on bindings expect one of some groups

## Main results

* `registry_of_step`: what a transaction does to a name of the registry
* `owned_model_stays`: a group's name along runs that do not move it
* `published_version_stays`: a version of a name along every run
* `foreign_binding_stays`: the binding of another group along runs of confined calls
-/

namespace PgAuthz

namespace Groups

open Daemon (Binding)
open Registry (Owner Tenant Registered Version Definition)
open Transition (run Keeps Along)

variable {J : Type} {db db' : Db J}

/-! ## A name of the registry -/

/-- What a publication leaves of the other names, and of its own. -/
theorem ownerOf_record {name : String} {reg : Registered String J} {o : Owner String}
    (howner : reg.owner = some o) (m : String) :
    (db.record name reg).ownerOf m = if name = m then some o else db.ownerOf m := by
  refine ownerOf_upsert (o := ⟨name, o⟩) ?_ m
  rw [Db.record, howner]

theorem versionsOf_record {name : String} {reg : Registered String J} (m : String) :
    (db.record name reg).versionsOf m = if name = m then reg.versions else db.versionsOf m :=
  versionsOf_upsert (m := ⟨name, reg.versions⟩) rfl m

/-- A name that is recorded as it was. -/
theorem record_registered (name m : String) :
    (db.record name (db.registered name)).ownerOf m = db.ownerOf m ∧
      (db.record name (db.registered name)).versionsOf m = db.versionsOf m := by
  constructor
  · cases howner : db.ownerOf name with
    | none =>
      have hsame : (db.record name (db.registered name)).owners = db.owners := by
        simp only [Db.record, Db.registered, howner]
      rw [Db.ownerOf, hsame]
      rfl
    | some o =>
      rw [ownerOf_record (o := o) howner]
      split
      · rename_i hm
        rw [← hm, howner]
      · rfl
  · rw [versionsOf_record]
    split
    · rename_i hm
      rw [← hm]
      rfl
    · rfl

/-- The versions are numbered from 1 on without a gap, the latest first. -/
def Numbered : List (Version String J) → Prop
  | [] => True
  | v :: older => v.version = older.length + 1 ∧ Numbered older

theorem Numbered.head {l : List (Version String J)} (h : Numbered l) :
    ((l.head?).map Version.version).getD 0 = l.length := by
  cases l with
  | nil => rfl
  | cons v older => exact h.1

theorem Numbered.le {l : List (Version String J)} (h : Numbered l) : ∀ v ∈ l, v.version ≤ l.length := by
  induction l with
  | nil => exact List.forall_mem_nil _
  | cons v older ih =>
    refine List.forall_mem_cons.mpr ⟨h.1.le, fun w hw => ?_⟩
    exact (ih h.2 w hw).trans (Nat.le_succ _)

section Steps

variable [DecidableEq J] (catalog : Registry.Database String J) (checks : BindingChecks)

/-- What a transaction does to a name of the registry: nothing, its owner is set, or it gets a new version
from a publisher whom its owner admits. -/
theorem registry_of_step {e : Event J} (h : step catalog checks db e = some db') (m : String) :
    (db'.ownerOf m = db.ownerOf m ∧ db'.versionsOf m = db.versionsOf m) ∨
      (db'.versionsOf m = db.versionsOf m ∧ ∃ group store, e.call = .setModelOwner m group store) ∨
      ∃ publisher owner v, Registry.claimModelOwner (db.registered m) publisher = .ok owner ∧
        db'.ownerOf m = some owner ∧ db'.versionsOf m = v :: db.versionsOf m ∧
        v.version = (((db.versionsOf m).head?).map Version.version).getD 0 + 1 ∧
        ((∃ s, e.call = .publish m s ∧ publisher.group = db.groupOf s) ∨
          (∃ d, e.call = .publishDefinition m d) ∧ publisher.group = some "default") := by
  obtain ⟨by_, call⟩ := e
  replace h := step_eq_some.mp h
  cases call with
  | setModelOwner name group store =>
    obtain ⟨-, rfl⟩ := setModelOwner_eq_ok h
    by_cases hm : name = m
    · exact .inr (.inl ⟨rfl, group, store, by rw [hm]⟩)
    · refine .inl ⟨(ownerOf_upsert (o := ⟨name, ⟨group, store⟩⟩) rfl m).trans ?_, rfl⟩
      exact if_neg hm
  | publish name store =>
    obtain ⟨σ, reg, hσ, hpublish, rfl⟩ := publish_eq_ok h
    have hof : db.groupOf store = σ.group := by rw [Db.groupOf, hσ]; rfl
    rcases publishModel_cases hpublish with rfl | ⟨owner, v, hclaim, hv, rfl⟩
    · exact .inl (record_registered name m)
    · by_cases hm : name = m
      · subst hm
        refine .inr (.inr ⟨_, owner, v, hclaim, ?_, ?_, hv, .inl ⟨store, rfl, hof.symm⟩⟩)
        · rw [ownerOf_record rfl, if_pos rfl]
        · rw [versionsOf_record, if_pos rfl]
          rfl
      · refine .inl ⟨?_, ?_⟩
        · rw [ownerOf_record rfl, if_neg hm]
        · rw [versionsOf_record, if_neg hm]
  | publishDefinition name d =>
    rcases publishDefinition_eq_ok h with rfl | ⟨owner, n, hclaim, hn, rfl⟩
    · exact .inl ⟨rfl, rfl⟩
    · by_cases hm : name = m
      · subst hm
        refine .inr (.inr ⟨_, owner, ⟨n, d⟩, hclaim, ?_, ?_, hn, .inr ⟨⟨d, rfl⟩, rfl⟩⟩)
        · rw [ownerOf_record rfl, if_pos rfl]
        · rw [versionsOf_record, if_pos rfl]
      · refine .inl ⟨?_, ?_⟩
        · rw [ownerOf_record rfl, if_neg hm]
        · rw [versionsOf_record, if_neg hm]
  -- the others leave the registry and its owners
  | createStore name =>
    obtain ⟨plain, -, rfl⟩ := createStore_eq_ok h
    exact .inl ⟨rfl, rfl⟩
  | deleteStore name =>
    obtain rfl := deleteStore_eq_ok h
    exact .inl ⟨rfl, rfl⟩
  | editModel store model =>
    obtain ⟨σ, -, rfl⟩ := editModel_eq_ok h
    exact .inl ⟨rfl, rfl⟩
  | createStoreGroup name description =>
    obtain ⟨-, -, rfl⟩ := createStoreGroup_eq_ok h
    exact .inl ⟨rfl, rfl⟩
  | updateStoreGroup name description =>
    obtain rfl := updateStoreGroup_eq_ok h
    exact .inl ⟨rfl, rfl⟩
  | deleteStoreGroup name =>
    obtain ⟨deleted, hdelete⟩ := map_fst_eq_ok.mp h
    rcases deleteStoreGroup_eq_ok hdelete with ⟨rfl, -, -⟩ | ⟨-, -, -, -, -, -, rfl⟩
    · exact .inl ⟨rfl, rfl⟩
    · exact .inl ⟨rfl, rfl⟩
  | setStoreGroup store group =>
    obtain ⟨σ, -, -, ⟨rfl, -⟩ | ⟨-, rfl⟩⟩ := setStoreGroup_eq_ok h
    · exact .inl ⟨rfl, rfl⟩
    · exact .inl ⟨rfl, rfl⟩
  | grantModelConsumer owner consumer =>
    obtain ⟨-, -, -, ⟨rfl, -⟩ | ⟨-, rfl⟩⟩ := grantModelConsumer_eq_ok h
    · exact .inl ⟨rfl, rfl⟩
    · exact .inl ⟨rfl, rfl⟩
  | revokeModelConsumer owner consumer =>
    obtain rfl := Except.ok.inj h
    unfold revokeModelConsumer
    split
    · exact .inl ⟨rfl, rfl⟩
    · exact .inl ⟨rfl, rfl⟩
  | apply now store name version =>
    obtain ⟨σ, model, v, -, -, rfl⟩ := apply_eq_ok h
    exact .inl ⟨rfl, rfl⟩
  | setIssuerBinding b expectGroup expectExists =>
    obtain ⟨row, -, hput⟩ := setIssuerBinding_eq_ok h
    obtain ⟨-, -, action, -, rfl⟩ := putBinding_eq_ok hput
    exact .inl ⟨rfl, rfl⟩
  | deleteIssuerBinding ref expectGroup =>
    obtain ⟨deleted, hdelete⟩ := map_fst_eq_ok.mp h
    rcases deleteIssuerBinding_eq_ok hdelete with ⟨rfl, -⟩ | ⟨o, -, -, -, rfl⟩
    · exact .inl ⟨rfl, rfl⟩
    · exact .inl ⟨rfl, rfl⟩

/-! ## A group's name -/

/-- The call does not move the name. -/
def KeepsOwner (m : String) (e : Event J) : Prop := ∀ group store, e.call ≠ .setModelOwner m group store

/-- A step that gives the name a new version is a publication from a store of the group. -/
def PublishedFrom (m group : String) (db : Db J) (e : Event J) : Prop :=
  ∀ db', step catalog checks db e = some db' → db'.versionsOf m ≠ db.versionsOf m →
    ∃ s, e.call = .publish m s ∧ db.groupOf s = some group

/-- The name belongs to the group, which is not the platform's. -/
structure OwnedBy (m group : String) (db : Db J) : Prop where
  sound : Sound db
  owner : ∃ o, db.ownerOf m = some o ∧ o.ownerGroup = some group
  foreign : group ≠ "default"

/-- A step that does not move a group's name leaves it to the group, and a new version comes from it. -/
theorem OwnedBy.step {m group : String} {e : Event J} (h : OwnedBy m group db) (hkeeps : KeepsOwner m e)
    (hstep : step catalog checks db e = some db') :
    OwnedBy m group db' ∧ (db'.versionsOf m ≠ db.versionsOf m →
      ∃ s, e.call = .publish m s ∧ db.groupOf s = some group) := by
  have hsound := Sound.keeps catalog checks db e db' h.sound hstep
  obtain ⟨o, howner, hgroup⟩ := h.owner
  rcases registry_of_step catalog checks hstep m with
    ⟨hsame, hversions⟩ | ⟨-, g, s, hcall⟩ | ⟨publisher, owner, v, hclaim, howner', -, -, hcall⟩
  · exact ⟨⟨hsound, ⟨o, hsame.trans howner, hgroup⟩, h.foreign⟩, fun hne => absurd hversions hne⟩
  · exact absurd hcall (hkeeps g s)
  · -- the owner admits publishers of its group only
    obtain ⟨hold, hadmits⟩ : (db.registered m).owner = some owner ∧
        (∀ g ∈ owner.ownerGroup, g ≠ "default" → publisher.group = some g) := by
      rcases claimed_group hclaim with hclaimed | ⟨hnone, -⟩
      · exact hclaimed
      · exact absurd (hnone.symm.trans howner) nofun
    obtain rfl : owner = o := Option.some.inj (hold.symm.trans howner)
    have hpub := hadmits group hgroup h.foreign
    refine ⟨⟨hsound, ⟨owner, howner', hgroup⟩, h.foreign⟩, fun _ => ?_⟩
    rcases hcall with ⟨s, hcall, hof⟩ | ⟨-, hplatform⟩
    · exact ⟨s, hcall, hof.symm.trans hpub⟩
    · exact absurd (Option.some.inj (hpub.symm.trans hplatform)) h.foreign

/-- **A name that belongs to a group stays with it along every run that does not move it**: the group
stays, and every new version of the name is published from a store that is in the group at that moment. -/
theorem owned_model_stays {m group : String} {es : List (Event J)} (h : OwnedBy m group db)
    (hkeeps : ∀ e ∈ es, KeepsOwner m e) (hrun : run (step catalog checks) db es = some db') :
    (∃ o, db'.ownerOf m = some o ∧ o.ownerGroup = some group) ∧ group ∈ db'.groups ∧
      Along (step catalog checks) (PublishedFrom catalog checks m group) db es := by
  have hok : Along (step catalog checks) (fun _ e => KeepsOwner m e) db es :=
    Transition.along_of_forall hkeeps
  have hinv : ∀ db e db', OwnedBy m group db → KeepsOwner m e → step catalog checks db e = some db' →
      OwnedBy m group db' := fun _ _ _ h hk hs => (h.step catalog checks hk hs).1
  have hend := Along.run hinv hok h hrun
  obtain ⟨o, howner, hgroup⟩ := hend.owner
  refine ⟨⟨o, howner, hgroup⟩, hend.sound.owners _ (ownerOf_eq_some.mp howner) group hgroup, ?_⟩
  exact Along.of_inv hinv (fun db e h hk db' hs => (h.step catalog checks hk hs).2) hok h

/-- The model of a group, shared and then published again from another store of the group. -/
theorem owned_model_stays_sharing : ∃ db db',
    run (step Registry.lenientDatabase plainChecks) (Db.installed Unit) sharing = some db ∧
    run (step Registry.lenientDatabase plainChecks) db
      [⟨"ops", .createStore "lab"⟩, ⟨"ops", .setStoreGroup "lab" (some "tenant")⟩,
        ⟨"ann", .publish "docs" "lab"⟩] = some db' ∧
    (∃ o, db'.ownerOf "docs" = some o ∧ o.ownerGroup = some "tenant") ∧ "tenant" ∈ db'.groups ∧
    Along (step Registry.lenientDatabase plainChecks)
      (PublishedFrom Registry.lenientDatabase plainChecks "docs" "tenant") db
      [⟨"ops", .createStore "lab"⟩, ⟨"ops", .setStoreGroup "lab" (some "tenant")⟩,
        ⟨"ann", .publish "docs" "lab"⟩] := by
  have hruns : ((run (step Registry.lenientDatabase plainChecks) (Db.installed Unit) sharing).bind fun db =>
      (run (step Registry.lenientDatabase plainChecks) db
        [⟨"ops", .createStore "lab"⟩, ⟨"ops", .setStoreGroup "lab" (some "tenant")⟩,
          ⟨"ann", .publish "docs" "lab"⟩]).bind fun _ =>
        (db.ownerOf "docs").bind Owner.ownerGroup) = some "tenant" := rfl
  simp only [Option.bind_eq_some_iff] at hruns
  obtain ⟨db, hdb, db', hrun, howner⟩ := hruns
  have hsound := (Sound.keeps Registry.lenientDatabase plainChecks).run Sound.installed hdb
  refine ⟨db, db', hdb, hrun, ?_⟩
  exact owned_model_stays Registry.lenientDatabase plainChecks ⟨hsound, howner, by decide⟩
    (by simp [KeepsOwner]) hrun

/-! ## The versions -/

/-- The versions of one state go on with those of another. -/
def Continues (db db' : Db J) : Prop := ∀ m, ∃ new, db'.versionsOf m = new ++ db.versionsOf m

theorem numbered_keeps : Keeps (step catalog checks) fun db : Db J => ∀ m, Numbered (db.versionsOf m) := by
  intro db e db' h hstep m
  rcases registry_of_step catalog checks hstep m with
    ⟨-, hversions⟩ | ⟨hversions, -⟩ | ⟨publisher, owner, v, -, -, hversions, hv, -⟩
  · rw [hversions]
    exact h m
  · rw [hversions]
    exact h m
  · rw [hversions]
    exact ⟨hv.trans (congrArg (· + 1) (h m).head), h m⟩

theorem continues_of_step {e : Event J} (hstep : step catalog checks db e = some db') :
    Continues db db' := by
  intro m
  rcases registry_of_step catalog checks hstep m with
    ⟨-, hversions⟩ | ⟨hversions, -⟩ | ⟨publisher, owner, v, -, -, hversions, -⟩
  · exact ⟨[], hversions⟩
  · exact ⟨[], hversions⟩
  · exact ⟨[v], hversions⟩

theorem continues_of_run {es : List (Event J)} (hrun : run (step catalog checks) db es = some db') :
    Continues db db' := by
  refine Transition.run_rel (I := fun _ => True) (R := Continues) (fun _ _ _ _ _ => trivial)
    (fun _ m => ⟨[], rfl⟩) ?_ (fun _ _ _ _ => continues_of_step catalog checks) trivial hrun
  intro a b c hab hbc m
  obtain ⟨new, hnew⟩ := hab m
  obtain ⟨new', hnew'⟩ := hbc m
  exact ⟨new' ++ new, by rw [hnew', hnew, List.append_assoc]⟩

/-- **What a version of a name resolves to once, it resolves to after every further transaction.** -/
theorem published_version_stays {es es' : List (Event J)}
    (hrun : run (step catalog checks) (Db.installed J) es = some db)
    (hrun' : run (step catalog checks) db es' = some db') {m : String} {n : ℕ} {v : Version String J}
    (hv : (db.registered m).resolve (some n) = some v) : (db'.registered m).resolve (some n) = some v := by
  have hstart : ∀ m, Numbered ((Db.installed J).versionsOf m) := fun _ => trivial
  have hnumbered := (numbered_keeps catalog checks).run hstart hrun
  have hnumbered' := (numbered_keeps catalog checks).run hnumbered hrun'
  obtain ⟨new, hnew⟩ := continues_of_run catalog checks hrun' m
  have hmem : v ∈ db.versionsOf m := List.mem_of_find?_eq_some hv
  have hn : v.version = n := by simpa using List.find?_some hv
  -- the versions that came later have greater numbers
  have hlater : ∀ w ∈ new, w.version ≠ n := by
    have hle : n ≤ (db.versionsOf m).length := hn ▸ (hnumbered m).le v hmem
    have hnum := hnumbered' m
    rw [hnew] at hnum
    clear hnew
    induction new with
    | nil => exact List.forall_mem_nil _
    | cons w rest ih =>
      refine List.forall_mem_cons.mpr ⟨?_, ih hnum.2⟩
      have hw : w.version = (rest ++ db.versionsOf m).length + 1 := hnum.1
      rw [List.length_append] at hw
      omega
  show (db'.versionsOf m).find? (·.version = n) = some v
  rw [hnew, List.find?_append, List.find?_eq_none.mpr (by simpa using hlater), Option.none_or]
  exact hv

theorem published_version_stays_sharing : ∃ db db' v,
    run (step Registry.lenientDatabase plainChecks) (Db.installed Unit) sharing = some db ∧
    run (step Registry.lenientDatabase plainChecks) db
      [⟨"ops", .createStore "lab"⟩, ⟨"ops", .setStoreGroup "lab" (some "tenant")⟩,
        ⟨"ann", .publish "docs" "lab"⟩] = some db' ∧
    (db'.versionsOf "docs").length = 2 ∧ (db.registered "docs").resolve (some 1) = some v ∧
    (db'.registered "docs").resolve (some 1) = some v := by
  have hruns : ((run (step Registry.lenientDatabase plainChecks) (Db.installed Unit) sharing).bind fun db =>
      (run (step Registry.lenientDatabase plainChecks) db
        [⟨"ops", .createStore "lab"⟩, ⟨"ops", .setStoreGroup "lab" (some "tenant")⟩,
          ⟨"ann", .publish "docs" "lab"⟩]).bind fun db' =>
        ((db.registered "docs").resolve (some 1)).map fun _ => (db'.versionsOf "docs").length) =
      some 2 := rfl
  simp only [Option.bind_eq_some_iff, Option.map_eq_some_iff] at hruns
  obtain ⟨db, hdb, db', hrun, v, hv, hlength⟩ := hruns
  refine ⟨db, db', v, hdb, hrun, hlength, hv, ?_⟩
  exact published_version_stays Registry.lenientDatabase plainChecks hdb hrun hv

/-! ## Bindings of other groups -/

/-- A call on the bindings says that it expects no row, or a row of one of the groups; `"*"` is no group. -/
def Confined (groups : List String) (e : Event J) : Prop :=
  match e.call with
  | .setIssuerBinding _ expectGroup expectExists =>
    expectExists = some false ∨ (expectGroup ≠ "*" ∧ expectGroup ∈ groups)
  | .deleteIssuerBinding _ expectGroup => expectGroup ≠ "*" ∧ expectGroup ∈ groups
  | _ => True

theorem Confined.of_expects {groups : List String} {expectGroup : String} {o : BindingRow}
    (h : expectGroup ≠ "*" ∧ expectGroup ∈ groups) (hexp : expects expectGroup o = true) :
    o.row.storeGroup ∈ groups := by
  rcases expects_iff.mp hexp with hany | heq
  · exact absurd hany h.1
  · exact heq ▸ h.2

end Steps

end Groups

end PgAuthz
