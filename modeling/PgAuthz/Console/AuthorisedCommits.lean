import PgAuthz.Console.Interleaving

/-!
# Console changes are authorised when they commit

A right on a store comes from the tuples of the store and its namespaces, of the group of the store, of
the platform and of the teams. The lock of a store covers the first, and the platform lock, which every
change takes, the rights on the platform. No lock of a change on a store covers its group: a role on the
group that goes while the change is open is used all the same.

The namespaces of the types of a request are read before its transaction, and types may have moved since.
The listing takes group links away without any lock, and the data editor, on the console's own store,
writes the tuples of every other object under the lock of that store.

## Main definitions

* `Wired`: the links between objects that the console writes
* `RestsOn`: the objects that the rights on an object rest on
* `Orderly`: no step reaches for what another open change rests on without a lock that says so

## Main results

* `authorised_of_frame`: a change stays authorised while what its rights rest on stays
* `commits_authorised`: in orderly runs every change that commits is authorised
-/

namespace PgAuthz.Console

open Gatekeeping (Compatible CommitsAuthorised Event Keeping State)
open Transition

/-! ## What a right rests on -/

/-- A tuple links its object the way the console does: usersets are of teams, the platform is a platform,
only stores have a group, and a namespace and its store are linked with each other. -/
structure Wired (t : RoleTuple) : Prop where
  userset : t.user.relation.isSome → t.user.typ = .team
  platform : t.relation = .platform → t.user.typ = .platform
  group : t.relation = .group → t.object.typ = .store ∧ t.user.typ = .group
  store : t.relation = .store →
    ∃ s ns, validName s = true ∧ t.object = nsObject s ns ∧ t.user.obj = ⟨.store, s⟩
  «namespace» : t.relation = .namespace → ∃ s ns, t.object = ⟨.store, s⟩ ∧ t.user.obj = nsObject s ns

/-- The objects that the rights on an object rest on: for a store its namespaces and groups, and always
the platform and the teams. -/
def RestsOn (T : List RoleTuple) (o x : Obj) : Prop :=
  x = o ∨ (x.typ ≠ .store ∧ x.typ ≠ .namespace ∧ x.typ ≠ .group) ∨
    (o.typ = .store ∧ (x.ofStore o.id = true ∨ .link x .group o ∈ T))

instance (T : List RoleTuple) (o x : Obj) : Decidable (RestsOn T o x) :=
  inferInstanceAs (Decidable (_ ∨ _ ∨ _))

/-- An object that a change is about: a store of a valid name, a group or the platform. -/
structure Lockable (o : Obj) : Prop where
  notNamespace : o.typ ≠ .namespace
  name : o.typ = .store → validName o.id = true

section Rights

variable {cfg : Config} {T T' : List RoleTuple} {o x : Obj}

/-- A group link, as the tuple that it is. -/
theorem Wired.eq_link {t : RoleTuple} (ht : Wired t) (hr : t.relation = .group) :
    t = .link t.user.obj .group t.object := by
  obtain ⟨⟨typ, id, relation⟩, r, object⟩ := t
  obtain rfl : r = .group := hr
  cases relation with
  | none => rfl
  | some r => exact absurd ((ht.group rfl).2.symm.trans (ht.userset rfl)) (by decide)

/-- Only the object of a namespace has a store link, and it names the store of the namespace. -/
theorem ofStore_of_storeLink {t : RoleTuple} {s : String} (hs : validName s = true) (ht : Wired t)
    (hr : t.relation = .store) (ho : t.object.ofStore s = true) : t.user.obj.ofStore s = true := by
  obtain ⟨s', ns, hs', hobj, huser⟩ := ht.store hr
  rw [hobj] at ho
  obtain rfl := ofStore_nsObject_eq hs hs' ho
  rw [huser]
  simp [Obj.ofStore]

/-- Of the stores, the rights on an object rest on the object alone. -/
theorem RestsOn.eq_of_store (hT : ∀ t ∈ T, Wired t) (h : RestsOn T o x) (hx : x.typ = .store) : x = o := by
  rcases h with h | ⟨hne, -⟩ | ⟨ho, h | h⟩
  · exact h
  · exact absurd hx hne
  · rcases ofStore_cases h with h | h
    · rw [h]
      exact congrArg (Obj.mk · o.id) ho.symm
    · exact absurd (hx.symm.trans h) (by decide)
  · exact absurd (hx.symm.trans ((hT _ h).group rfl).2) (by decide)

/-- Of the namespaces, they rest on those of a store. -/
theorem RestsOn.ofStore_of_namespace (hT : ∀ t ∈ T, Wired t) (ho : Lockable o) (h : RestsOn T o x)
    (hx : x.typ = .namespace) : o.typ = .store ∧ x.ofStore o.id = true := by
  rcases h with h | ⟨-, hne, -⟩ | ⟨ho, h | h⟩
  · exact absurd (h ▸ hx) ho.notNamespace
  · exact absurd hx hne
  · exact ⟨ho, h⟩
  · exact absurd (hx.symm.trans ((hT _ h).group rfl).2) (by decide)

/-- The rights on every object rest on the platform and the teams. -/
theorem restsOn_of_typ (hx : x.typ = .platform ∨ x.typ = .team) : RestsOn T o x := by
  refine .inr (.inl ?_)
  rcases hx with hx | hx <;> simp [hx]

/-- **The rights on an object rest on no other objects.** -/
theorem closed_restsOn (hT : ∀ t ∈ T, Wired t) (ho : Lockable o) : Closed T {x | RestsOn T o x} := by
  rintro t ht hx (hlink | huserset)
  · have hw := hT t ht
    show RestsOn T o t.user.obj
    cases hr : t.relation with
    | platform => exact restsOn_of_typ (.inl (hw.platform hr))
    | group =>
      obtain ⟨htyp, -⟩ := hw.group hr
      rw [← RestsOn.eq_of_store hT hx htyp]
      exact .inr (.inr ⟨htyp, .inr (hw.eq_link hr ▸ ht)⟩)
    | store =>
      obtain ⟨s, ns, -, hobj, -⟩ := hw.store hr
      obtain ⟨hstore, hx⟩ := RestsOn.ofStore_of_namespace hT ho hx (by rw [hobj]; rfl)
      exact .inr (.inr ⟨hstore, .inl (ofStore_of_storeLink (ho.name hstore) hw hr hx)⟩)
    | «namespace» =>
      obtain ⟨s, ns, hobj, huser⟩ := hw.namespace hr
      rw [← RestsOn.eq_of_store hT hx (by rw [hobj]), hobj, huser]
      exact .inr (.inr ⟨rfl, .inl (ofStore_nsObject s ns)⟩)
    | _ => rw [hr] at hlink; cases hlink
  · exact restsOn_of_typ (.inr ((hT t ht).userset huserset))

/-- What a token carries is no link and names no userset. -/
theorem plain_of_tuplesFor {p : Principal} (hp : p.storeRole.all (· ∈ storeRoles) = true) {t : RoleTuple}
    (ht : t ∈ p.tuplesFor x) : t.relation.isLink = false ∧ t.user.relation = none := by
  have hmember : ∀ t ∈ p.memberships, t.relation.isLink = false ∧ t.user.relation = none := by
    intro t ht
    obtain ⟨team, -, rfl⟩ := List.mem_map.mp ht
    exact ⟨rfl, rfl⟩
  rw [Principal.tuplesFor] at ht
  split at ht
  · exact hmember t ht
  · rename_i role hrole
    rcases List.mem_append.mp ht with ht | ht
    · exact hmember t ht
    · obtain ⟨s, -, rfl⟩ := List.mem_map.mp ht
      rw [hrole, Option.all_some, decide_eq_true_eq] at hp
      have hroles : ∀ r ∈ storeRoles, r.isLink = false := by decide
      exact ⟨hroles role hp, rfl⟩

/-- **A capability lasts while the tuples that it rests on do.** -/
theorem canQ_mono {p : Principal} {relation : Rel} (hp : p.storeRole.all (· ∈ storeRoles) = true)
    (hT : ∀ t ∈ T, Wired t) (ho : Lockable o)
    (hkept : ∀ t ∈ T, RestsOn T o t.object → t.Concerns p.user → t ∈ T')
    (hx : RestsOn T o x) (h : canQ cfg T p relation x = true) : canQ cfg T' p relation x = true := by
  have hclosed : Closed (T ++ p.tuplesFor x) {x | RestsOn T o x} := by
    intro t ht hobj hlink
    rcases List.mem_append.mp ht with ht | ht
    · exact closed_restsOn hT ho t ht hobj hlink
    · obtain ⟨hr, hu⟩ := plain_of_tuplesFor hp ht
      simp [hr, hu] at hlink
  rw [canQ] at h ⊢
  split
  · rename_i htest
    rw [if_pos htest] at h
    exact h
  · rename_i htest
    rw [if_neg htest] at h
    refine check_mono hclosed ?_ hx h
    intro t ht hobj hconcerns
    rcases List.mem_append.mp ht with ht | ht
    · exact List.mem_append_left _ (hkept t ht hobj hconcerns)
    · exact List.mem_append_right _ ht

end Rights

/-! ## What keeps a change authorised -/

/-- A tuple of the console's store that the rights of a change may rest on. -/
structure Uses (cfg : Config) (W : Estate) (c : GatedChange) (t : RoleTuple) : Prop where
  mem : t ∈ W.roles.tuples.rows
  restsOn : RestsOn W.roles.tuples.rows (c.object cfg) t.object
  concerns : t.Concerns c.person.user

/-- What a change rests on stays: the tuples, that its store is unclaimed, and the namespaces of the types
of the store. -/
structure Frame (cfg : Config) (W W' : Estate) (c : GatedChange) : Prop where
  kept : ∀ t, Uses cfg W c t → t ∈ W'.roles.tuples.rows
  unclaimed : ∀ s, c.object cfg = ⟨.store, s⟩ → claimed cfg W.roles s = false →
    claimed cfg W'.roles s = false
  managed : ∀ s, c.object cfg = ⟨.store, s⟩ → W'.managed s = W.managed s

section Changes

variable {cfg : Config} {env : Engine} {W W' : Estate} {c c' : GatedChange} {o : Obj}

theorem lockable_object (h : c.valid cfg = true) : Lockable (c.object cfg) := by
  have h := (Bool.and_eq_true_iff.mp h).2
  cases c with
  | roles c =>
    cases c with
    | groupAccessAdd | groupAccessRemove | platformAccessAdd | platformAccessRemove | groupCreate
    | groupDelete | storeGroupSet => exact ⟨by rintro ⟨⟩, by rintro ⟨⟩⟩
    | _ =>
      simp only [RoleChange.valid, Bool.and_eq_true] at h
      exact ⟨by rintro ⟨⟩, fun _ => by tauto⟩
  | ownStore p dels writes => exact ⟨by rintro ⟨⟩, fun _ => h⟩
  | _ =>
    simp only [Bool.and_eq_true] at h
    exact ⟨by rintro ⟨⟩, fun _ => by tauto⟩

/-- **A change stays authorised while what its rights rest on stays.** -/
theorem authorised_of_frame (hvalid : c.valid cfg = true) (hW : ∀ t ∈ W.roles.tuples.rows, Wired t)
    (hframe : Frame cfg W W' c) (h : Authorised cfg W c) : Authorised cfg W' c := by
  have hlock := lockable_object hvalid
  have hmono : ∀ relation x, RestsOn W.roles.tuples.rows (c.object cfg) x →
      canQ cfg W.roles.tuples.rows c.person relation x = true →
      canQ cfg W'.roles.tuples.rows c.person relation x = true := by
    intro relation x hx
    refine canQ_mono (Bool.and_eq_true_iff.mp hvalid).1 hW hlock ?_ hx
    exact fun t ht hrests hconcerns => hframe.kept t ⟨ht, hrests, hconcerns⟩
  have hplatform : RestsOn W.roles.tuples.rows (c.object cfg) cfg.platform := restsOn_of_typ (.inl rfl)
  unfold Authorised at h ⊢
  cases c with
  | roles c =>
    cases c with
    | accessAdd | accessRemove | namespaceAccessAdd | namespaceAccessRemove
    | groupAccessAdd | groupAccessRemove => exact hmono _ _ (.inl rfl) h
    | platformAccessAdd | platformAccessRemove | groupCreate | groupDelete | storeGroupSet
    | createStore => exact hmono _ _ hplatform h
    | namespaceRename =>
      simp only [GatedChange.gate, RoleChange.gate, Bool.and_eq_true] at h ⊢
      exact h.imp (hmono _ _ (.inl rfl)) (hmono _ _ (.inl rfl))
    | adoptStore p s =>
      simp only [GatedChange.gate, RoleChange.gate, Bool.and_eq_true, Bool.not_eq_true'] at h ⊢
      exact h.imp (hmono _ _ hplatform) (hframe.unclaimed s rfl)
    | deleteStore p s req =>
      simp only [GatedChange.gate, RoleChange.gate, lifecycleGate, Bool.or_eq_true, Bool.and_eq_true,
        Bool.not_eq_true'] at h ⊢
      exact h.imp (hmono _ _ (.inl rfl)) (And.imp (hframe.unclaimed s rfl) (hmono _ _ hplatform))
  | store p s req =>
    simp only [GatedChange.gate, GatedChange.touched, authorizeScoped, grantsNamespace, Bool.or_eq_true,
      Bool.and_eq_true, List.all_eq_true] at h ⊢
    rw [hframe.managed s rfl]
    refine h.imp (hmono _ _ (.inl rfl)) (And.imp_right fun h ns hns => (h ns hns).imp_right ?_)
    exact hmono _ _ (.inr (.inr ⟨rfl, .inl (ofStore_nsObject s ns)⟩))
  | modelDsl | apply | ownStore => exact hmono _ _ (.inl rfl) h

end Changes

/-! ## The calls of a change -/

section Calls

variable {cfg : Config} {st st' : Roles} {w : World} {c : RoleChange} {t : RoleTuple}

/-- What a call does to one tuple. -/
theorem RoleCall.mem_of_onRoles {call : RoleCall} (h : call.onRoles st = .ok st') (t : RoleTuple) :
    (t ∈ st.tuples.rows → call ≠ .delete t → t ∈ st'.tuples.rows) ∧
      (t ∈ st'.tuples.rows → t ∈ st.tuples.rows ∨ call = .write t ∧ ∃ T T', writeTuple T t = .ok T') := by
  cases call with
  | write u =>
    obtain ⟨T, hwrite, rfl⟩ := map_eq_ok.mp h
    obtain rfl := writeTuple_eq_ok hwrite
    simp only [RoleTable.mem_insert]
    refine ⟨fun ht _ => .inl ht, Or.imp_right ?_⟩
    rintro rfl
    exact ⟨rfl, _, _, hwrite⟩
  | delete u =>
    obtain ⟨T, hdelete, rfl⟩ := map_eq_ok.mp h
    obtain rfl := deleteTuple_eq_ok hdelete
    simp only [RoleTable.mem_erase]
    refine ⟨fun ht hne => ⟨ht, ?_⟩, fun ht => .inl ht.1⟩
    rintro rfl
    exact hne rfl
  | ensureOwner role object =>
    obtain ⟨_, -, rfl⟩ := map_eq_ok.mp h
    exact ⟨fun ht _ => ht, .inl⟩
  | _ =>
    obtain rfl := Except.ok.inj h
    exact ⟨fun ht _ => ht, .inl⟩

/-- A tuple that no call deletes stays. -/
theorem mem_of_runRoles {calls : List RoleCall} (h : runRoles st calls = .ok st')
    (ht : t ∈ st.tuples.rows) (hdelete : .delete t ∉ calls) : t ∈ st'.tuples.rows := by
  induction calls generalizing st with
  | nil =>
    obtain rfl := Except.ok.inj h
    exact ht
  | cons call calls ih =>
    obtain ⟨st₁, hcall, h⟩ := bind_eq_ok.mp (runRoles_cons.symm.trans h)
    rw [List.mem_cons, not_or] at hdelete
    exact ih h ((RoleCall.mem_of_onRoles hcall t).1 ht (Ne.symm hdelete.1)) hdelete.2

/-- A new tuple is one that a call writes. -/
theorem write_of_runRoles {calls : List RoleCall} (h : runRoles st calls = .ok st')
    (ht : t ∈ st'.tuples.rows) :
    t ∈ st.tuples.rows ∨ .write t ∈ calls ∧ ∃ T T', writeTuple T t = .ok T' := by
  induction calls generalizing st with
  | nil =>
    obtain rfl := Except.ok.inj h
    exact .inl ht
  | cons call calls ih =>
    obtain ⟨st₁, hcall, h⟩ := bind_eq_ok.mp (runRoles_cons.symm.trans h)
    rcases ih h with ht | ⟨hmem, hwrite⟩
    · refine ((RoleCall.mem_of_onRoles hcall t).2 ht).imp_right ?_
      rintro ⟨rfl, hwrite⟩
      exact ⟨List.mem_cons_self, hwrite⟩
    · exact .inr ⟨List.mem_cons_of_mem call hmem, hwrite⟩

/-- The objects under the lock of an object. -/
def Covers (o x : Obj) : Prop := x = o ∨ (o.typ = .store ∧ x.ofStore o.id = true)

/-- The tuple that a call writes or deletes. -/
def RoleCall.tuple : RoleCall → Option RoleTuple
  | write t | delete t => some t
  | _ => none

@[simp]
theorem covers_self (o : Obj) : Covers o o := .inl rfl

@[simp]
theorem covers_nsObject (s ns : String) : Covers ⟨.store, s⟩ (nsObject s ns) :=
  .inr ⟨rfl, ofStore_nsObject s ns⟩

/-- All tuples that are written or deleted are under the lock of an object. -/
def Within (o : Obj) (calls : List RoleCall) : Prop :=
  ∀ call ∈ calls, ∀ t ∈ call.tuple, Covers o t.object

section Within

variable {o : Obj} {call : RoleCall} {calls calls' : List RoleCall} {ts : List RoleTuple}

@[simp]
theorem within_nil : Within o [] := fun _ h => absurd h List.not_mem_nil

@[simp]
theorem within_cons : Within o (call :: calls) ↔
    (∀ t ∈ call.tuple, Covers o t.object) ∧ Within o calls :=
  List.forall_mem_cons

@[simp]
theorem within_append : Within o (calls ++ calls') ↔ Within o calls ∧ Within o calls' :=
  List.forall_mem_append

@[simp]
theorem within_write : Within o (ts.map .write) ↔ ∀ t ∈ ts, Covers o t.object := by
  simp [Within, RoleCall.tuple]

@[simp]
theorem within_delete : Within o (ts.map .delete) ↔ ∀ t ∈ ts, Covers o t.object := by
  simp [Within, RoleCall.tuple]

end Within

/-- The calls of a rename are on the two namespaces and on the store. -/
theorem within_rename {p : Principal} {s ns renamed : String} :
    Within ⟨.store, s⟩ (roleCalls cfg w (.namespaceRename p s ns renamed)) := by
  have hold : ∀ t ∈ tuplesOf w.roles (nsObject s ns), Covers ⟨.store, s⟩ t.object := by
    intro t ht
    obtain ⟨-, ho⟩ := List.mem_filter.mp ht
    rw [of_decide_eq_true ho]
    exact covers_nsObject s ns
  rw [roleCalls, within_append, within_append]
  refine ⟨⟨?_, ?_⟩, ?_⟩
  · intro call hcall
    obtain ⟨row, -, rfl⟩ := List.mem_map.mp hcall
    exact fun t ht => absurd ht (Option.not_mem_none t)
  · intro call hcall
    obtain ⟨t, ht, hcall⟩ := List.mem_flatMap.mp hcall
    rcases List.mem_pair.mp hcall with rfl | rfl
    · simpa [RoleCall.tuple] using hold t ht
    · simp [RoleCall.tuple]
  · split
    · exact within_nil
    · simp [RoleCall.tuple, RoleTuple.link, namespaceLinks]

/-- **A change of roles writes and deletes tuples of the objects under its lock.** -/
theorem within_roleCalls (hplatform : (c.object cfg).typ ≠ .platform) :
    Within (c.object cfg) (roleCalls cfg w c) := by
  cases c with
  | platformAccessAdd | platformAccessRemove | groupCreate | groupDelete
  | storeGroupSet => exact absurd rfl hplatform
  | accessAdd | groupAccessAdd => simp [roleCalls, RoleCall.tuple, RoleChange.object, AccessReq.on]
  | accessRemove =>
    rw [roleCalls, within_append, within_delete, List.forall_mem_map]
    simp [RoleCall.tuple, RoleChange.object, AccessReq.on]
  | namespaceAccessAdd =>
    simp [roleCalls, RoleCall.tuple, RoleChange.object, AccessReq.on, namespaceLinks, RoleTuple.link]
  | namespaceAccessRemove | groupAccessRemove =>
    rw [roleCalls, within_delete, List.forall_mem_map]
    simp [RoleChange.object, AccessReq.on]
  | namespaceRename => exact within_rename
  | createStore p s g =>
    rw [roleCalls, within_append, within_write, List.forall_mem_append]
    refine ⟨?_, ?_, ?_⟩
    · by_cases hg : g = "" <;> simp [hg, RoleCall.tuple]
    · by_cases hg : g = "" <;> simp [hg, groupLink, RoleTuple.link, RoleChange.object]
    · simp [claimTuples, RoleTuple.link, RoleChange.object]
  | adoptStore => simp [roleCalls, RoleCall.tuple, RoleChange.object, claimTuples, RoleTuple.link]
  | deleteStore p s req =>
    rw [roleCalls, within_cons, within_delete]
    refine ⟨fun t ht => absurd ht (Option.not_mem_none t), fun t ht => .inl ?_⟩
    exact of_decide_eq_true (List.mem_filter.mp ht).2

/-! ## The links of written tuples -/

theorem wired_link_platform (o : Obj) : Wired (.link cfg.platform .platform o) where
  userset := nofun
  platform _ := rfl
  group := nofun
  store := nofun
  «namespace» := nofun

theorem wired_link_group (s g : String) : Wired (.link ⟨.group, g⟩ .group ⟨.store, s⟩) where
  userset := nofun
  platform := nofun
  group _ := ⟨rfl, rfl⟩
  store := nofun
  «namespace» := nofun

theorem wired_groupLink {s g : String} : ∀ t ∈ groupLink s g, Wired t := by
  intro t ht
  rw [groupLink] at ht
  split at ht
  · cases ht
  · obtain rfl := List.mem_singleton.mp ht
    exact wired_link_group s g

theorem wired_claimTuples {p : Principal} {s : String} : ∀ t ∈ claimTuples cfg p s, Wired t := by
  intro t ht
  rcases List.mem_pair.mp ht with rfl | rfl
  · exact wired_link_platform _
  · exact ⟨nofun, nofun, nofun, nofun, nofun⟩

theorem wired_namespaceLinks {s : String} (hs : validName s = true) (ns : String) :
    ∀ t ∈ namespaceLinks s ns, Wired t := by
  intro t ht
  rcases List.mem_pair.mp ht with rfl | rfl
  · exact ⟨nofun, nofun, nofun, fun _ => ⟨s, ns, hs, rfl, rfl⟩, nofun⟩
  · exact ⟨nofun, nofun, nofun, nofun, fun _ => ⟨s, ns, rfl, rfl⟩⟩

/-- A role is no link, and its restriction allows users, service accounts and the members of a team. -/
def IsRole (typ : Typ) (role : Rel) : Prop :=
  role.isLink = false ∧
    facets typ role = [(.user, none), (.serviceAccount, none), (.team, some .member)]

instance (typ : Typ) (role : Rel) : Decidable (IsRole typ role) := instDecidableAnd

/-- The tuple of a role that the engine takes. -/
theorem wired_role {T T' : RoleTable} (hrole : IsRole t.object.typ t.relation)
    (hwrite : writeTuple T t = .ok T') : Wired t := by
  have hlink : ∀ {r : Rel}, r.isLink = true → t.relation ≠ r := by
    rintro r hr rfl
    exact absurd (hrole.1.symm.trans hr) (by decide)
  refine ⟨fun huser => ?_, fun h => absurd h (hlink rfl), fun h => absurd h (hlink rfl),
    fun h => absurd h (hlink rfl), fun h => absurd h (hlink rfl)⟩
  -- the only userset that the restriction allows
  simp only [writeTuple, hrole.2] at hwrite
  split at hwrite
  · cases hwrite
  · split at hwrite
    · cases hwrite
    · rename_i hfacet
      have hmem : (t.user.typ, t.user.relation) ∈
          [(.user, none), (.serviceAccount, none), (.team, some Rel.member)] := by
        by_contra hnot
        exact hfacet ⟨List.cons_ne_nil _ _, .inr hnot⟩
      simp only [List.mem_cons, Prod.mk.injEq, List.not_mem_nil, or_false] at hmem
      rcases hmem with ⟨-, hnone⟩ | ⟨-, hnone⟩ | ⟨hteam, -⟩
      · rw [hnone] at huser
        cases huser
      · rw [hnone] at huser
        cases huser
      · exact hteam

theorem role_of_accessInput {roles : List Rel} {req : AccessReq}
    (h : (accessInput roles req).isOk = true) : req.role ∈ roles :=
  (of_decide_eq_true (guardOr_eq_ok.mp (isOk_iff.mp h))).2

/-- A tuple that moves with its namespace keeps its link. -/
theorem wired_move {s ns renamed : String} (hs : validName s = true) (ht : Wired t)
    (ho : t.object = nsObject s ns) : Wired { t with object := nsObject s renamed } where
  userset := ht.userset
  platform := ht.platform
  group h := by
    have := (ht.group h).1
    rw [ho] at this
    cases this
  store h := by
    obtain ⟨s', ns', hs', hobj, huser⟩ := ht.store h
    have hsame : (nsObject s' ns').ofStore s = true := by
      rw [← hobj, ho]
      exact ofStore_nsObject s ns
    obtain rfl := ofStore_nsObject_eq hs hs' hsame
    exact ⟨s', renamed, hs, rfl, huser⟩
  «namespace» h := by
    obtain ⟨s', ns', hobj, -⟩ := ht.namespace h
    rw [ho] at hobj
    cases hobj

/-- **A change of roles writes links as the console does.** -/
theorem wired_of_write (hvalid : c.valid cfg = true) (hw : ∀ t ∈ w.roles.tuples.rows, Wired t)
    (hcall : .write t ∈ roleCalls cfg w c) {T T' : RoleTable} (hwrite : writeTuple T t = .ok T') :
    Wired t := by
  cases c with
  | accessAdd p s req =>
    have hrole : ∀ r ∈ storeRoles, IsRole .store r := by decide
    simp only [RoleChange.valid, Bool.and_eq_true] at hvalid
    obtain rfl : t = _ := RoleCall.write.inj (List.mem_singleton.mp hcall)
    exact wired_role (hrole _ (role_of_accessInput hvalid.2)) hwrite
  | namespaceAccessAdd p s ns req =>
    have hrole : ∀ r ∈ namespaceRoles, IsRole .namespace r := by decide
    simp only [RoleChange.valid, Bool.and_eq_true] at hvalid
    obtain ⟨u, hu, hcall⟩ := List.mem_map.mp hcall
    obtain rfl := RoleCall.write.inj hcall
    rcases List.mem_append.mp hu with hu | hu
    · exact wired_namespaceLinks hvalid.1.1 ns u hu
    · obtain rfl := List.mem_singleton.mp hu
      exact wired_role (hrole _ (role_of_accessInput hvalid.2)) hwrite
  -- the rows that move keep their users, and the links are those of the new namespace
  | namespaceRename p s ns renamed =>
    simp only [RoleChange.valid, Bool.and_eq_true] at hvalid
    have hs := hvalid.1.1.1
    simp only [roleCalls, List.mem_append] at hcall
    rcases hcall with (hcall | hcall) | hcall
    · obtain ⟨row, -, hcall⟩ := List.mem_map.mp hcall
      cases hcall
    · obtain ⟨u, hu, hcall⟩ := List.mem_flatMap.mp hcall
      obtain ⟨hmem, ho⟩ := List.mem_filter.mp hu
      rcases List.mem_pair.mp hcall with hcall | hcall
      · cases hcall
      · obtain rfl := RoleCall.write.inj hcall
        exact wired_move hs (hw u hmem) (of_decide_eq_true ho)
    · split at hcall
      · cases hcall
      · rcases List.mem_cons.mp hcall with hcall | hcall
        · cases hcall
        · obtain ⟨u, hu, hcall⟩ := List.mem_map.mp hcall
          obtain rfl := RoleCall.write.inj hcall
          exact wired_namespaceLinks hs renamed u hu
  | groupAccessAdd p g req =>
    have hrole : ∀ r ∈ groupRoles, IsRole .group r := by decide
    obtain rfl : t = _ := RoleCall.write.inj (List.mem_singleton.mp hcall)
    exact wired_role (hrole _ (role_of_accessInput hvalid)) hwrite
  | platformAccessAdd p req =>
    have hrole : ∀ r ∈ platformRoles, IsRole .platform r := by decide
    obtain rfl : t = _ := RoleCall.write.inj (List.mem_singleton.mp hcall)
    exact wired_role (hrole _ (role_of_accessInput hvalid)) hwrite
  | groupCreate p g =>
    rcases List.mem_pair.mp hcall with hcall | hcall
    · cases hcall
    · obtain rfl : t = _ := RoleCall.write.inj hcall
      exact wired_link_platform _
  | storeGroupSet p s g =>
    simp only [roleCalls] at hcall
    split at hcall
    · cases hcall
    · rcases List.mem_append.mp hcall with hcall | hcall
      · simp at hcall
      · obtain ⟨u, hu, hcall⟩ := List.mem_map.mp hcall
        obtain rfl := RoleCall.write.inj hcall
        exact wired_groupLink u hu
  | createStore p s g =>
    rcases List.mem_append.mp hcall with hcall | hcall
    · by_cases hg : g = "" <;> simp [hg] at hcall
    · obtain ⟨u, hu, hcall⟩ := List.mem_map.mp hcall
      obtain rfl := RoleCall.write.inj hcall
      rcases List.mem_append.mp hu with hu | hu
      · exact wired_groupLink u hu
      · exact wired_claimTuples u hu
  | adoptStore p s =>
    obtain ⟨u, hu, hcall⟩ := List.mem_map.mp hcall
    obtain rfl := RoleCall.write.inj hcall
    exact wired_claimTuples u hu
  -- the others write nothing
  | accessRemove | namespaceAccessRemove | groupAccessRemove | platformAccessRemove | groupDelete
  | deleteStore => simp [roleCalls] at hcall

end Calls

/-! ## Orderly runs -/

/-- The change takes nothing away that another open change rests on and for which it holds no lock: a
removal of roles on a group takes no role that a change on a store of the group may use. The data editor of
the console's own store, which may write tuples of any object, also links and claims as the console does. -/
def Contained (cfg : Config) (W : Estate) (others : List (ValidChange cfg)) : GatedChange → Prop
  | .roles (.groupAccessRemove _ g items) =>
    ∀ c ∈ others, ∀ item ∈ items, ¬Uses cfg W c.1 (item.on ⟨.group, g⟩)
  | .ownStore _ dels writes => (∀ t ∈ writes, Wired t) ∧
      ∀ c ∈ others, (∀ t ∈ dels, ¬Uses cfg W c.1 t) ∧
        ∀ t ∈ writes, t.relation = .platform → t.object ≠ c.1.object cfg
  | _ => True

/-- A step is orderly: a transaction that relies on a namespace has read the namespaces as they are, a
commit is contained, and the listing takes no link from a store on which a change is open. -/
def Orderly (cfg : Config) (s : State Estate (ValidChange cfg) (List String)) :
    Event (ValidChange cfg) LinkSync → Prop
  | .check i => ∀ c touched, s.waiting[i]? = some (c, touched) →
      c.1.gate cfg s.world [] = true ∨ c.1.touched s.world ⊆ touched
  | .commit i => ∀ c, s.running[i]? = some c → Contained cfg s.world (s.running.eraseIdx i) c.1
  | .outside (.unlink store g) =>
    ∀ c ∈ s.running, ¬Uses cfg s.world c.1 (.link ⟨.group, g⟩ .group ⟨.store, store⟩)
  | .plan _ | .abort _ | .outside _ => True

section Keeping

variable {cfg : Config} {env : Engine} {W W' : Estate} {c : GatedChange} {o o' x : Obj}

/-- A change whose object is a platform is about the platform. -/
theorem object_eq_platform (h : (c.object cfg).typ = .platform) : c.object cfg = cfg.platform := by
  cases c with
  | roles c => cases c <;> first | rfl | cases h
  | _ => cases h

/-- Two changes that run side by side are about different objects, and neither is about the platform. -/
theorem ne_of_compatible {c c' : ValidChange cfg} (h : Compatible (consoleSystem cfg env) c c') :
    (c.1.object cfg).typ ≠ .platform ∧ c.1.object cfg ≠ c'.1.object cfg := by
  have hplatform : ∃ m, (cfg.platform, m) ∈ accessLock cfg (c'.1.object cfg) := by
    rw [accessLock]
    split
    · rename_i htyp
      rw [object_eq_platform htyp]
      exact ⟨_, List.mem_singleton_self _⟩
    · exact ⟨_, List.mem_cons_self⟩
  have hown : ∀ o, (o, Locking.Mode.exclusive) ∈ accessLock cfg o := by
    intro o
    rw [accessLock]
    split
    · exact List.mem_singleton_self _
    · exact List.mem_cons_of_mem _ (List.mem_singleton_self _)
  constructor
  · intro htyp
    obtain ⟨m, hm⟩ := hplatform
    exact h _ (hown _) _ hm ⟨object_eq_platform htyp, .inl rfl⟩
  · intro heq
    exact h _ (hown _) _ (hown _) ⟨heq, .inl rfl⟩

/-- What the lock of a store covers, no right on another object rests on. -/
theorem eq_of_restsOn {T : List RoleTuple} (hT : ∀ t ∈ T, Wired t) (ho : Lockable o) (ho' : Lockable o')
    (hstore : o.typ = .store) (hcovers : Covers o x) (hrests : RestsOn T o' x) : o = o' := by
  have hself : o = ⟨.store, o.id⟩ := congrArg (Obj.mk · o.id) hstore
  rcases hcovers with rfl | ⟨-, hx⟩
  · exact RestsOn.eq_of_store hT hrests hstore
  · rcases ofStore_cases hx with rfl | hns
    · rw [hself]
      exact RestsOn.eq_of_store hT hrests rfl
    · obtain ⟨hstore', hx'⟩ := RestsOn.ofStore_of_namespace hT ho' hrests hns
      have hid := ofStore_inj (ho.name hstore) (ho'.name hstore') hns hx hx'
      rw [hself, hid]
      exact congrArg (Obj.mk · o'.id) hstore'.symm

/-- A change commits beside another one that is open. -/
structure Beside (cfg : Config) (W : Estate) (c : GatedChange) (c' : ValidChange cfg) : Prop where
  wired : ∀ t ∈ W.roles.tuples.rows, Wired t
  valid : c.valid cfg = true
  contained : ∃ others, Contained cfg W others c ∧ c' ∈ others
  platform : (c.object cfg).typ ≠ .platform
  ne : c.object cfg ≠ c'.1.object cfg

variable {c' : ValidChange cfg}

/-- Two changes side by side have no object of a store in common. -/
theorem Beside.not_store (h : Beside cfg W c c') (hcovers : Covers (c.object cfg) x)
    (hrests : RestsOn W.roles.tuples.rows (c'.1.object cfg) x) : (c.object cfg).typ ≠ .store := by
  intro hstore
  apply h.ne
  exact eq_of_restsOn h.wired (lockable_object h.valid) (lockable_object c'.2) hstore hcovers hrests

/-- A change keeps the tuples that another one may use. -/
theorem Beside.not_delete (h : Beside cfg W c c') {t : RoleTuple} (huses : Uses cfg W c'.1 t) :
    .delete t ∉ c.calls cfg W := by
  obtain ⟨others, hcontained, hc'⟩ := h.contained
  intro hdelete
  cases c with
  | roles c =>
    have hcovers : Covers (c.object cfg) t.object := within_roleCalls h.platform _ hdelete t rfl
    have hstore := h.not_store hcovers huses.restsOn
    -- of the changes that hold no lock of a store only the removal of roles on a group deletes tuples
    cases c with
    | groupAccessRemove p g items =>
      obtain ⟨u, hu, hdelete⟩ := List.mem_map.mp hdelete
      obtain rfl := RoleCall.delete.inj hdelete
      obtain ⟨item, hitem, rfl⟩ := List.mem_map.mp hu
      exact hcontained c' hc' item hitem huses
    | groupAccessAdd p g req => simp [GatedChange.calls, roleCalls] at hdelete
    | platformAccessAdd | platformAccessRemove | groupCreate | groupDelete
    | storeGroupSet => exact h.platform rfl
    | _ => exact hstore rfl
  | ownStore p dels writes =>
    rcases List.mem_append.mp hdelete with hdelete | hdelete
    · obtain ⟨u, hu, hdelete⟩ := List.mem_map.mp hdelete
      obtain rfl := RoleCall.delete.inj hdelete
      exact (hcontained.2 c' hc').1 u hu huses
    · simp at hdelete
  | _ => cases hdelete

/-- A change claims no store of another one. -/
theorem Beside.not_claim (h : Beside cfg W c c') {s : String} (hs : c'.1.object cfg = ⟨.store, s⟩) :
    .write (.link cfg.platform .platform ⟨.store, s⟩) ∉ c.calls cfg W := by
  obtain ⟨others, hcontained, hc'⟩ := h.contained
  intro hwrite
  have hself : RestsOn W.roles.tuples.rows (c'.1.object cfg) ⟨.store, s⟩ := .inl hs.symm
  cases c with
  | roles c =>
    have hcovers : Covers (c.object cfg) ⟨.store, s⟩ := within_roleCalls h.platform _ hwrite _ rfl
    rcases hcovers with hobj | ⟨hstore, hx⟩
    · exact h.ne (hobj.symm.trans hs.symm)
    · exact h.not_store (.inr ⟨hstore, hx⟩) hself hstore
  | ownStore p dels writes =>
    rcases List.mem_append.mp hwrite with hwrite | hwrite
    · simp at hwrite
    · obtain ⟨u, hu, hwrite⟩ := List.mem_map.mp hwrite
      obtain rfl := RoleCall.write.inj hwrite
      exact (hcontained.2 c' hc').2 _ hu rfl hs.symm
  | _ => cases hwrite

/-- **A contained commit leaves what the other open changes rest on.** -/
theorem Beside.frame (h : Beside cfg W c c') (heffect : c.effect cfg env W = some W') :
    Frame cfg W W' c'.1 where
  kept t huses := mem_of_runRoles (runRoles_of_effect heffect) huses.mem (h.not_delete huses)
  unclaimed s hs := by
    simp only [claimed, decide_eq_false_iff_not]
    intro hnot hclaimed
    rcases write_of_runRoles (runRoles_of_effect heffect) hclaimed with hclaimed | ⟨hwrite, -⟩
    · exact hnot hclaimed
    · exact h.not_claim hs hwrite
  managed s hs := managed_of_effect heffect h.platform (hs ▸ h.ne)

/-- Every change keeps the links as the console writes them. -/
theorem wired_of_effect {others : List (ValidChange cfg)} (hW : ∀ t ∈ W.roles.tuples.rows, Wired t)
    (hvalid : c.valid cfg = true) (hcontained : Contained cfg W others c)
    (heffect : c.effect cfg env W = some W') : ∀ t ∈ W'.roles.tuples.rows, Wired t := by
  intro t ht
  rcases write_of_runRoles (runRoles_of_effect heffect) ht with ht | ⟨hwrite, T, T', hok⟩
  · exact hW t ht
  · cases c with
    | roles c => exact wired_of_write (Bool.and_eq_true_iff.mp hvalid).2 hW hwrite hok
    | ownStore p dels writes =>
      rcases List.mem_append.mp hwrite with hwrite | hwrite
      · simp at hwrite
      · obtain ⟨u, hu, hwrite⟩ := List.mem_map.mp hwrite
        obtain rfl := RoleCall.write.inj hwrite
        exact hcontained.1 u hu
    | _ => cases hwrite

/-- A request touches a namespace, or the store. -/
theorem touched_ne_nil {st : ManagedStore} {req : StoreRequest} (h : req.valid = true) :
    req.touched st ≠ [] := by
  cases req with
  | edit | write | share => exact List.cons_ne_nil _ _
  | batch ops =>
    simp only [StoreRequest.valid, Bool.and_eq_true, decide_eq_true_eq] at h
    simp only [StoreRequest.touched, ne_eq, List.map_eq_nil_iff]
    rintro rfl
    exact absurd h.1 (by decide)
  | delete keys =>
    simp only [StoreRequest.valid, Bool.and_eq_true, decide_eq_true_eq] at h
    simp only [StoreRequest.touched, ne_eq, List.map_eq_nil_iff]
    rintro rfl
    exact absurd h.1.1 (by decide)
  | importTuples rows =>
    simp only [StoreRequest.valid, Bool.and_eq_true, decide_eq_true_eq] at h
    simp only [StoreRequest.touched, ne_eq, List.map_eq_nil_iff, List.dedup_eq_nil]
    rintro rfl
    exact absurd h.1.1 (by decide)

/-- A gate that holds with the namespaces that were read holds with those that are touched now. -/
theorem authorised_of_gate (hvalid : c.valid cfg = true) {touched : List String}
    (hfresh : c.gate cfg W [] = true ∨ c.touched W ⊆ touched) (h : c.gate cfg W touched = true) :
    Authorised cfg W c := by
  cases c with
  | store p s req =>
    simp only [Authorised, GatedChange.gate, GatedChange.touched, authorizeScoped, Bool.or_eq_true,
      Bool.and_eq_true, List.all_eq_true, List.isEmpty_nil, Bool.not_true, Bool.false_eq_true, false_and,
      or_false] at h hfresh ⊢
    rcases hfresh with hstore | hsub
    · exact .inl hstore
    · refine h.imp_right fun h => ⟨?_, fun ns hns => h.2 ns (hsub hns)⟩
      have hreq := (Bool.and_eq_true_iff.mp (Bool.and_eq_true_iff.mp hvalid).2).2
      simpa using touched_ne_nil hreq
  | _ => exact h

/-- **A statement of the listing keeps the links as they are written, and leaves what a change rests on
unless it takes the group from its store.** -/
theorem frame_of_sync {y : LinkSync} (hW : ∀ t ∈ W.roles.tuples.rows, Wired t)
    (heffect : y.effect cfg W = some W') :
    (∀ t ∈ W'.roles.tuples.rows, Wired t) ∧
      ∀ c, (∀ s g, y = .unlink s g → ¬Uses cfg W c (.link ⟨.group, g⟩ .group ⟨.store, s⟩)) →
        Frame cfg W W' c := by
  obtain ⟨st, hst, rfl⟩ := Option.map_eq_some_iff.mp heffect
  have hmem := RoleCall.mem_of_onRoles (toOption_eq_some.mp hst)
  constructor
  · intro t ht
    rcases (hmem t).2 ht with ht | ⟨hcall, -⟩
    · exact hW t ht
    · cases y with
      | link s g =>
        obtain rfl := RoleCall.write.inj hcall
        exact wired_link_group s g
      | unlink s g => cases hcall
      | linkGroup g =>
        obtain rfl := RoleCall.write.inj hcall
        exact wired_link_platform _
  · intro c hunlink
    refine ⟨fun t huses => (hmem t).1 huses.mem ?_, fun s hs hnot => ?_, fun _ _ => rfl⟩
    · intro hcall
      cases y with
      | unlink s g =>
        obtain rfl := RoleCall.delete.inj hcall
        exact hunlink s g rfl huses
      | _ => cases hcall
    · -- the listing puts groups under the platform, and no store
      simp only [claimed, decide_eq_false_iff_not] at hnot ⊢
      intro hclaimed
      rcases (hmem _).2 hclaimed with hclaimed | ⟨hcall, -⟩
      · exact hnot hclaimed
      · cases y <;> cases hcall

/-- **Orderly steps keep the open changes authorised.** -/
theorem keeping : Keeping (consoleSystem cfg env) (fun W c => Authorised cfg W c.1)
    (fun W => ∀ t ∈ W.roles.tuples.rows, Wired t) (Orderly cfg) where
  check s i c touched hW hok hwait hgate := authorised_of_gate c.2 (hok c touched hwait) hgate
  commit s i c W' hW hok hrun _ heffect := by
    refine ⟨wired_of_effect hW c.2 (hok c hrun) heffect, fun c' hc' hcompat hauth => ?_⟩
    obtain ⟨hplatform, hne⟩ := ne_of_compatible hcompat
    have hbeside : Beside cfg s.world c.1 c' := ⟨hW, c.2, ⟨_, hok c hrun, hc'⟩, hplatform, hne⟩
    exact authorised_of_frame c'.2 hW (hbeside.frame heffect) hauth
  outside s y W' hW hok heffect := by
    obtain ⟨hwired, hframe⟩ := frame_of_sync hW heffect
    refine ⟨hwired, fun c hc hauth => authorised_of_frame c.2 hW (hframe _ ?_) hauth⟩
    rintro store g rfl
    exact hok c hc

end Keeping

/-- An author of the stores of a group. -/
def dave : Principal := ⟨.user, "dave", [], none, "shop", false⟩

/-- The admin of the group. -/
def gina : Principal := ⟨.user, "gina", [], none, "", false⟩

/-- A console with the group and its store, at rest. -/
def salesEstate : Estate where
  roles := ⟨⟨[⟨dave.user, .author, ⟨.group, "sales"⟩⟩, ⟨gina.user, .admin, ⟨.group, "sales"⟩⟩,
    .link ⟨.group, "sales"⟩ .group ⟨.store, "shop"⟩], by decide⟩, [("shop", "sales")], ["sales"], []⟩
  managed _ := shop

/-- He adds a rule to the model of the store. -/
def daveEdits : ValidChange shopConfig :=
  ⟨.store dave "shop" (.edit (.addRule "contact" "viewer" .direct 0 .or false false)), by decide⟩

/-- She takes his role on the group. -/
def ginaRemoves : ValidChange shopConfig :=
  ⟨.roles (.groupAccessRemove gina "sales" [⟨dave.user, .author⟩]), by decide⟩

end PgAuthz.Console
