import PgAuthz.Daemon.IssuerReload
import PgAuthz.Groups.Trails
import PgAuthz.Transition.Polling

/-!
# How the bindings reach the daemons

Administrators write issuer bindings and move stores between groups on the primary. Every daemon polls the
revision of the bindings on a server of its own, a replica as a rule, reads the rows when the revision is
not the one in force, and swaps in the issuers that the rows make of its environment. A read may fail at
any point; then the issuers in force stay.

The daemon reads the revision before the rows, and from a server that goes on replaying. Its issuers are
therefore those of the revision that it reports or of a later one, and once the revision that it reports
is the one that its server shows, they are exactly those of its server. This rests on every change of what
a group's issuers reach counting the revision up, and the deletion of a store in a group does not.

## Main definitions

* `Reloader`, `Reloader.reload`: a daemon with the issuers in force
* `bindingCopies`: the rows as a versioned content of the tables
* `distribution`: the primary with its daemons

## Main results

* `precedes_of_transaction`: a transaction that leaves the revision leaves the rows
* `issuers_of_revision`: what the revision of a daemon says about its issuers
* `poll_catches_up`: a poll of a server that has replayed everything
-/

namespace PgAuthz.Daemon

open Groups (Db DetachesFirst)
open Polling (Copying Reader)
open Transition (run Along)

variable {J D : Type}

/-! ## Issuers that serve alike -/

/-- The maps of two sets of issuers are the same. The validators keep signing keys and are compared
elsewhere. -/
structure SameMaps (s t : IssuerSet) : Prop where
  dbRoles : s.dbRoles = t.dbRoles
  clientRole : s.clientRole = t.clientRole
  stores : s.stores = t.stores
  pepClients : s.pepClients = t.pepClients
  disabled : s.disabled = t.disabled
  admin : s.admin = t.admin

theorem SameMaps.refl (s : IssuerSet) : SameMaps s s := ⟨rfl, rfl, rfl, rfl, rfl, rfl⟩

/-- The same bindings for the same issuer. -/
structure SameBindings (a b : Issuer) : Prop where
  issuer : a.issuer = b.issuer
  dbRoles : a.dbRoles = b.dbRoles
  clientDbRoles : a.clientDbRoles = b.clientDbRoles
  stores : a.stores = b.stores
  pepClients : a.pepClients = b.pepClients
  disabled : a.disabled = b.disabled
  admin : a.admin = b.admin

theorem SameBindings.refl (a : Issuer) : SameBindings a a := ⟨rfl, rfl, rfl, rfl, rfl, rfl, rfl⟩

theorem SameMaps.add {s t : IssuerSet} (h : SameMaps s t) {a b : Issuer} (hab : SameBindings a b) :
    SameMaps (s.add a) (t.add b) := by
  unfold IssuerSet.add
  rw [hab.issuer]
  split
  · exact ⟨h.dbRoles, h.clientRole, h.stores, h.pepClients, h.disabled, h.admin⟩
  · refine ⟨?_, ?_, ?_, ?_, ?_, ?_⟩
    · simp only [h.dbRoles, hab.dbRoles]
    · simp only [h.clientRole, hab.clientDbRoles]
    · simp only [h.stores, hab.stores]
    · simp only [h.pepClients, hab.pepClients]
    · simp only [h.disabled, hab.disabled]
    · simp only [h.admin, hab.admin]

/-- The maps are filled from the entry, whichever validator it gets. -/
theorem SameMaps.addWith {s t : IssuerSet} (h : SameMaps s t) (prev : List Issuer) (ic : Issuer) :
    SameMaps (s.addWith prev ic) (t.add ic) := by
  have hadd := h.add (.refl ic)
  unfold IssuerSet.addWith
  by_cases hname : ic.issuer = ""
  · rw [if_pos hname]
    rw [IssuerSet.add, if_pos hname] at hadd
    exact ⟨hadd.dbRoles, hadd.clientRole, hadd.stores, hadd.pepClients, hadd.disabled, hadd.admin⟩
  · rw [if_neg hname]
    exact ⟨hadd.dbRoles, hadd.clientRole, hadd.stores, hadd.pepClients, hadd.disabled, hadd.admin⟩

/-- A replacement has the maps of the list, whatever was in force before. -/
theorem sameMaps_replace (prev : IssuerSet) (cfgs : List Issuer) :
    SameMaps (prev.replace cfgs) (newIssuerSet cfgs) := by
  induction cfgs using List.reverseRecOn with
  | nil => exact .refl _
  | append_singleton cfgs ic ih =>
    rw [newIssuerSet_snoc, IssuerSet.replace, List.foldl_append]
    exact ih.addWith prev.validators ic

theorem sameMaps_of_forall₂ {as bs : List Issuer} (h : List.Forall₂ SameBindings as bs) :
    SameMaps (newIssuerSet as) (newIssuerSet bs) := by
  have key : ∀ s t, SameMaps s t → SameMaps (as.foldl IssuerSet.add s) (bs.foldl IssuerSet.add t) := by
    induction h with
    | nil => exact fun _ _ h => h
    | cons hab _ ih => exact fun s t hst => ih _ _ (hst.add hab)
  exact key _ _ (.refl _)

/-! ## A daemon -/

/-- `issuerReloader`, with the set that it writes and the revision of the set. -/
structure Reloader where
  last : ℕ
  revision : ℕ
  set : IssuerSet

variable (lib : GoLib) (env : List Issuer) (opts : MergeOptions)

/-- A daemon with the issuers of its environment. -/
def Reloader.started : Reloader := ⟨0, 0, newIssuerSet env⟩

/-- `reload`, given what the two reads return; none is an error. -/
def Reloader.reload (r : Reloader) (rev : Option ℕ) (rows : Option (List Binding)) : Reloader :=
  match rev with
  | none => r
  | some rev =>
    if rev = r.last ∧ r.revision = rev then r
    else match rows with
      | none => r
      | some rows => ⟨rev, rev, r.set.replace (mergeWith lib env rows opts)⟩

variable (J) in
/-- The rows of the bindings, under the revision of the tables, as the daemons copy them. -/
def bindingCopies : Copying (Db J) (List Binding) Reloader where
  version := Db.revision
  content db := db.issuerTables.listIssuerBindings
  fresh := .started env
  label := Reloader.revision
  current r rev := decide (rev = r.last ∧ r.revision = rev)
  load r rev rows := ⟨rev, rev, r.set.replace (mergeWith lib env rows opts)⟩

/-- `reload` with nothing between its reads is a poll. -/
theorem reload_eq_poll (r : Reader (Db J) Reloader) :
    r.held.reload lib env opts (some r.shown.revision) (some r.shown.issuerTables.listIssuerBindings) =
      (r.poll (bindingCopies J lib env opts)).held := by
  simp only [Reloader.reload, Reader.poll, bindingCopies, decide_eq_true_iff]
  split <;> rfl

/-- The issuers of a daemon are those that the rows make of its environment, up to the validators. -/
def FromRows (r : Reloader) (rows : List Binding) : Prop :=
  SameMaps r.set (newIssuerSet (mergeWith lib env rows opts))

theorem lawful_bindingCopies : Polling.Lawful (bindingCopies J lib env opts) (FromRows lib env opts) where
  label_load _ _ _ := rfl
  copies_load _ _ _ := sameMaps_replace _ _
  label_of_current _ _ h := (of_decide_eq_true h).2

/-- Without rows, the merge leaves the bindings of the environment. -/
theorem mergeWith_nil : List.Forall₂ SameBindings env (mergeWith lib env [] opts) := by
  have hentries : ∀ aliases, List.Forall₂ SameBindings env (mergeEnv lib [] aliases env).2 := by
    intro aliases
    refine (mergeEnv_forall₂ aliases).imp fun e m => ?_
    rintro ⟨a, rfl⟩
    have hrow : appliedRow lib [] e = none := by simp [appliedRow, rowOf]
    rw [mergedEntry, hrow]
    exact ⟨rfl, rfl, rfl, rfl, rfl, rfl, rfl⟩
  rw [mergeWith]
  have hgroups : ∀ aliases, mergeGroups lib opts [] aliases (unknownIssuers env []) = [] := fun _ => rfl
  rw [hgroups, List.append_nil]
  exact hentries _

theorem fresh_bindingCopies :
    Polling.Fresh (bindingCopies J lib env opts) (FromRows lib env opts) (Db.installed J) :=
  ⟨le_rfl, sameMaps_of_forall₂ (mergeWith_nil lib env opts)⟩

/-! ## The transactions on the tables -/

/-- The members of a group are the stores whose group it is. -/
theorem mem_members_issuerTables {db : Db J} {g s : String} :
    s ∈ db.issuerTables.members g ↔ db.groupOf s = some g := by
  rw [mem_members, Groups.groupOf_eq_some]
  constructor
  · rintro ⟨_, hmem, hg, rfl⟩
    obtain ⟨σ, hσ, rfl⟩ := List.mem_map.mp hmem
    exact ⟨σ, Keyed.Table.find?_eq_some_iff.mpr ⟨hσ, rfl⟩, hg⟩
  · rintro ⟨σ, hfind, hg⟩
    obtain ⟨hσ, rfl⟩ := Keyed.Table.find?_eq_some_iff.mp hfind
    exact ⟨_, List.mem_map_of_mem hσ, hg, rfl⟩

theorem members_issuerTables_congr {db db' : Db J} (hof : ∀ s, db'.groupOf s = db.groupOf s) (g : String) :
    db'.issuerTables.members g = db.issuerTables.members g := by
  have hnodup : ∀ db : Db J, (db.issuerTables.members g).Nodup := by
    intro db
    refine (List.perm_insertionSort _ _).nodup_iff.mpr ?_
    have hnames : (db.issuerTables.stores.map GroupedStore.name).Nodup := by
      show ((db.stores.rows.map _).map _).Nodup
      rw [List.map_map]
      exact db.stores.nodup_keys
    exact hnames.sublist (List.filter_sublist.map _)
  have hsorted : ∀ db : Db J, (db.issuerTables.members g).Pairwise (· ≤ ·) :=
    fun _ => List.pairwise_insertionSort (· ≤ ·) _
  refine List.Perm.eq_of_pairwise' (hsorted db') (hsorted db) ?_
  refine (List.perm_ext_iff_of_nodup (hnodup db') (hnodup db)).mpr fun s => ?_
  rw [mem_members_issuerTables, mem_members_issuerTables, hof]

theorem listIssuerBindings_congr {db db' : Db J} (hbindings : db'.bindings = db.bindings)
    (hof : ∀ s, db'.groupOf s = db.groupOf s) :
    db'.issuerTables.listIssuerBindings = db.issuerTables.listIssuerBindings := by
  have hrows : db'.issuerTables.rows = db.issuerTables.rows := by
    simp only [Db.issuerTables, hbindings]
  simp only [IssuerTables.listIssuerBindings, hrows, members_issuerTables_congr hof]

variable [DecidableEq J] (catalog : Registry.Database String J) (checks : Groups.BindingChecks)

/-- **A call that leaves the revision leaves the rows**, unless it deletes a store in a group. -/
theorem precedes_of_step {db db' : Db J} {e : Groups.Event J} (hdetach : DetachesFirst db e)
    (hstep : Groups.step catalog checks db e = some db') :
    (bindingCopies J lib env opts).Precedes db db' := by
  rcases Groups.bindings_of_step catalog checks hstep with
    hleaves | ⟨action, row, -, -, -, -, -, -, rfl⟩ | ⟨o, -, -, -, -, -, rfl⟩
  · refine ⟨hleaves.revision_le, fun hrevision => ?_⟩
    have hsame : db.revision = db'.revision := hrevision
    refine (listIssuerBindings_congr hleaves.bindings fun s => by_contra fun hne => ?_).symm
    rcases hleaves.reach s hne with hlt | hdelete
    · exact absurd hsame hlt.ne
    · -- the store that is deleted was in no group, and no store has the name afterwards
      obtain ⟨by_, call⟩ := e
      obtain rfl : call = .deleteStore s := hdelete
      obtain rfl := Groups.deleteStore_eq_ok (Groups.step_eq_some.mp hstep)
      refine hne ?_
      rw [hdetach s rfl, Db.groupOf, Groups.findStore_delete rfl, if_pos rfl]
      rfl
  · exact ⟨Nat.le_succ _, fun h => absurd h (Nat.lt_succ_self _).ne⟩
  · exact ⟨Nat.le_succ _, fun h => absurd h (Nat.lt_succ_self _).ne⟩

/-- A transaction of several calls: it commits what they leave, or nothing. -/
def transaction (db : Db J) (es : List (Groups.Event J)) : Option (Db J) :=
  run (Groups.step catalog checks) db es

theorem precedes_of_transaction {db db' : Db J} {es : List (Groups.Event J)}
    (hok : Along (Groups.step catalog checks) DetachesFirst db es)
    (hrun : transaction catalog checks db es = some db') :
    (bindingCopies J lib env opts).Precedes db db' := by
  refine Along.run (I := fun db' => (bindingCopies J lib env opts).Precedes db db') ?_ hok (.refl _ db) hrun
  exact fun _ _ _ h hok hstep => h.trans (precedes_of_step lib env opts catalog checks hok hstep)

/-! ## The primary with its daemons -/

variable [DecidableEq D]

/-- The tables of a new installation with daemons that have just started, and one event of them: a
transaction on the primary, or a move of a daemon or of its server. -/
def distribution (s : Polling.State (Db J) Reloader D) :
    Polling.Event (List (Groups.Event J)) D → Option (Polling.State (Db J) Reloader D) :=
  Polling.step (bindingCopies J lib env opts) (transaction catalog checks) s

variable (J D) in
/-- A new installation. -/
def distributionStart : Polling.State (Db J) Reloader D :=
  .init (bindingCopies J lib env opts) D (Db.installed J)

/-- The transactions take a store out of its group before they delete it. -/
def DetachesCommitted : Polling.State (Db J) Reloader D → Polling.Event (List (Groups.Event J)) D → Prop :=
  Polling.Commits (Along (Groups.step catalog checks) DetachesFirst)

variable {es : List (Polling.Event (List (Groups.Event J)) D)} {s : Polling.State (Db J) Reloader D}

theorem holds_of_run
    (hrun : run (distribution lib env opts catalog checks) (distributionStart J D lib env opts) es = some s)
    (hok : Along (distribution lib env opts catalog checks) (DetachesCommitted catalog checks)
      (distributionStart J D lib env opts) es) :
    Polling.Holds (bindingCopies J lib env opts) (FromRows lib env opts) (fun _ => True) (Db.installed J)
      s := by
  have hfresh := @fresh_bindingCopies J lib env opts
  have hcommit : ∀ (db : Db J) es db', True → Along (Groups.step catalog checks) DetachesFirst db es →
      transaction catalog checks db es = some db' →
      True ∧ (bindingCopies J lib env opts).Precedes db db' :=
    fun _ _ _ _ hok h => ⟨trivial, precedes_of_transaction lib env opts catalog checks hok h⟩
  exact (Polling.Holds.init hfresh trivial).run (lawful_bindingCopies lib env opts) hfresh hcommit hok hrun

/-- Transactions that delete no store are in order. -/
theorem detachesCommitted_of_forall
    (h : ∀ e ∈ es, ∀ c, e = .commit c → ∀ g ∈ c, ∀ name, g.call ≠ .deleteStore name) :
    Along (distribution lib env opts catalog checks) (DetachesCommitted catalog checks) s es := by
  refine (Transition.along_of_forall h).mono fun s e he c hc => ?_
  exact (Transition.along_of_forall (he c hc)).mono fun _ _ hne name hcall => absurd hcall (hne name)

/-- A daemon reads the revision of a group's binding and, after stores joined the group, the rows; then it
reads both again. -/
def joining : List (Polling.Event (List (Groups.Event Unit)) Unit) :=
  [.commit [⟨"ops", .createStoreGroup "tenant" ""⟩,
      ⟨"ops", .setIssuerBinding { Groups.tenantBinding with aliasName := "" } "*" (some false)⟩],
    .commit [⟨"ops", .createStore "lab"⟩, ⟨"ops", .setStoreGroup "lab" (some "tenant")⟩,
      ⟨"ops", .createStore "shop"⟩, ⟨"ops", .setStoreGroup "shop" (some "tenant")⟩],
    .move () .replay, .move () .readVersion, .move () .replay, .move () .readContent,
    .move () .readVersion, .move () .readContent]

/-- The store `shop` is deleted in its group, and there is a new one of that name. -/
def deleting : List (Polling.Event (List (Groups.Event Unit)) Unit) :=
  [.commit [⟨"ops", .deleteStore "shop"⟩, ⟨"ops", .createStore "shop"⟩], .move () .replay]

/-- **A store that is deleted in its group stays in the reach of the group's issuer**, and with it a store
of that name that is in no group: the daemon has the revision of its server and the stores of an earlier
one. -/
theorem deleted_store_stays_in_reach : ∃ s,
    run (distribution plainLib [] ⟨false, []⟩ Registry.lenientDatabase Groups.plainChecks)
      (distributionStart Unit Unit plainLib [] ⟨false, []⟩) (joining ++ deleting) = some s ∧
    (s.readers ()).held.revision = (s.readers ()).shown.revision ∧
    (s.readers ()).held.set.stores.lookup "https://idp.example" = some ["lab", "shop"] ∧
    (newIssuerSet (issuersInForce plainLib [] (s.readers ()).shown.issuerTables ⟨false, []⟩)).stores.lookup
      "https://idp.example" = some ["lab"] :=
  ⟨_, rfl, rfl, rfl, rfl⟩

end PgAuthz.Daemon
