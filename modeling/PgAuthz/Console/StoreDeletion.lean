import PgAuthz.Console.Roles
import PgAuthz.Transition.Runs

/-!
# Deleting a store

The console deletes a store of the engine and then the tuples of the store's object, one by one and
through the checks of a revocation. The shipped model keeps an owner on every store, so that the
last owner is refused and the deletion with it. The tuples of the namespaces of the store are other
objects and stay.

A store without an owner and without roles on its namespaces is deleted with all its tuples. Nobody
but the local admin, or a write to the console's own store, can then put a role on it before a store
of this name exists again, and everything that a person may do with the new store was granted since.

## Main definitions

* `Obj.ofStore`: the object of a store and those of its namespaces
* `Deletable`: the store has no owner and no tuple on a namespace
* `RoleEvent`, `roleStep`: the requests, and what else changes the tuples
* `Unassigned`: no step puts a role on an absent store

## Main results

* `handleDeleteStore_eq_ok_iff`: when the deletion of a store succeeds, and what it leaves
* `clean_step`: an absent store stays without tuples
* `deletes_cleanly_iff`: both, and what a new store of the name starts with
-/

namespace PgAuthz.Console

open Transition

/-! ## The objects of a store -/

/-- The object of a store, or that of one of its namespaces. -/
def Obj.ofStore (s : String) (o : Obj) : Bool :=
  o = ⟨.store, s⟩ ∨ (o.typ = .namespace ∧ (s ++ "/").toList <+: o.id.toList)

theorem ofStore_nsObject (s ns : String) : (nsObject s ns).ofStore s = true := by
  simp [Obj.ofStore, nsObject, String.append_assoc]

theorem not_ofStore {s id : String} {typ : Typ} (h : typ ≠ .store ∧ typ ≠ .namespace) :
    ¬ Obj.ofStore s ⟨typ, id⟩ = true := by
  simp [Obj.ofStore, h.1, h.2]

theorem ofStore_store {s s' : String} (h : Obj.ofStore s ⟨.store, s'⟩ = true) : s' = s := by
  simpa [Obj.ofStore] using h

theorem ofStore_cases {s : String} {o : Obj} (h : o.ofStore s = true) :
    o = ⟨.store, s⟩ ∨ o.typ = .namespace := by
  rw [Obj.ofStore, decide_eq_true_eq] at h
  exact h.imp_right And.left

theorem no_slash_of_validName {s : String} (h : validName s = true) : '/' ∉ s.toList := by
  intro hc
  unfold validName at h
  split at h
  · cases h
  · rename_i c cs hl
    rw [hl] at hc
    simp only [Bool.and_eq_true, List.all_eq_true] at h
    rcases List.mem_cons.mp hc with rfl | hc
    · exact absurd h.1 (by decide)
    · exact absurd (h.2 _ hc) (by decide)

/-- The first slash ends the name of the store. -/
theorem takeWhile_name {s : String} (hs : validName s = true) (rest : List Char) :
    (s.toList ++ '/' :: rest).takeWhile (· ≠ '/') = s.toList := by
  have hne : ∀ c ∈ s.toList, (c ≠ '/' : Bool) = true := by
    intro c hc
    have : c ≠ '/' := fun heq => no_slash_of_validName hs (heq ▸ hc)
    simpa using this
  rw [List.takeWhile_append_of_pos hne]
  simp

/-- A namespace is one of one store. -/
theorem ofStore_inj {s s' : String} {o : Obj} (hs : validName s = true) (hs' : validName s' = true)
    (ho : o.typ = .namespace) (h : o.ofStore s = true) (h' : o.ofStore s' = true) : s = s' := by
  have hpre : ∀ {s : String}, o.ofStore s = true → (s ++ "/").toList <+: o.id.toList := by
    intro s h
    rw [Obj.ofStore, decide_eq_true_eq] at h
    rcases h with rfl | h
    · cases ho
    · exact h.2
  obtain ⟨rest, hrest⟩ := hpre h
  obtain ⟨rest', hrest'⟩ := hpre h'
  have heq : s.toList ++ '/' :: rest = s'.toList ++ '/' :: rest' := by
    simpa [String.toList_append] using hrest.trans hrest'.symm
  have := congrArg (List.takeWhile (· ≠ '/')) heq
  rw [takeWhile_name hs, takeWhile_name hs'] at this
  exact String.toList_inj.mp this

theorem ofStore_nsObject_eq {s s' ns : String} (hs : validName s = true) (hs' : validName s' = true)
    (h : (nsObject s' ns).ofStore s = true) : s' = s :=
  ofStore_inj hs' hs rfl (ofStore_nsObject s' ns) h

/-- The store that a request is about. -/
def RoleChange.about : RoleChange → Option String
  | accessAdd _ s _ | accessRemove _ s _ | namespaceAccessAdd _ s _ _ | namespaceAccessRemove _ s _ _
  | namespaceRename _ s _ _ | storeGroupSet _ s _ | createStore _ s _ | adoptStore _ s
  | deleteStore _ s _ => some s
  | groupAccessAdd .. | groupAccessRemove .. | platformAccessAdd .. | platformAccessRemove ..
  | groupCreate .. | groupDelete .. => none

/-- A tuple on a store or on one of its namespaces is written by a request about the store. It asked
whether the person manages the store, or the store exists, or it creates the store. -/
theorem asked_of_written {cfg : Config} {st st' : Roles} {c : RoleChange} {s : String}
    (hs : validName s = true) (h : handle cfg st c = .ok st') {t : RoleTuple}
    (ht : t ∈ written cfg st c) (hobj : t.object.ofStore s = true) :
    c.about = some s ∧
      (canQ cfg st.tuples.rows c.person .canManageAccess ⟨.store, s⟩ = true ∨ st.hasStore s = true ∨
        ∃ p g, c = .createStore p s g) := by
  cases c with
  -- a role on the store, or on one of its namespaces, asks for the store
  | accessAdd p s' req =>
    simp only [handle, handleAccessAdd, bind_eq_ok, requireStore_eq_ok, exists_const] at h
    rw [written, List.mem_singleton] at ht
    subst ht
    obtain rfl := ofStore_store hobj
    exact ⟨rfl, .inl h.1.2⟩
  | namespaceAccessAdd p s' ns req =>
    simp only [handle, handleNamespaceAccessAdd, bind_eq_ok, namespaceTarget_eq_ok,
      exists_const] at h
    obtain rfl : s' = s := by
      simp only [written, namespaceLinks, List.cons_append, List.nil_append, List.mem_cons,
        List.not_mem_nil, or_false] at ht
      rcases ht with rfl | rfl | rfl
      · exact ofStore_nsObject_eq hs h.1.1.1 hobj
      · exact ofStore_store hobj
      · exact ofStore_nsObject_eq hs h.1.1.1 hobj
    exact ⟨rfl, .inl h.1.1.2⟩
  | namespaceRename p s' ns renamed =>
    simp only [handle, handleNamespaceRename, bind_eq_ok, requireStore_eq_ok, require,
      guardOr_eq_ok, exists_const] at h
    obtain rfl : s' = s := by
      simp only [written, namespaceLinks, List.mem_append, List.mem_map, List.mem_cons,
        List.not_mem_nil, or_false] at ht
      rcases ht with ⟨u, -, rfl⟩ | rfl | rfl
      · exact ofStore_nsObject_eq hs h.1.1 hobj
      · exact ofStore_nsObject_eq hs h.1.1 hobj
      · exact ofStore_store hobj
    exact ⟨rfl, .inl h.2.2.1⟩
  -- a group and the platform are objects of no store
  | groupAccessAdd p g req =>
    rw [written, List.mem_singleton] at ht
    subst ht
    exact absurd hobj (not_ofStore (by decide))
  | platformAccessAdd p req =>
    rw [written, List.mem_singleton] at ht
    subst ht
    exact absurd hobj (not_ofStore (by decide))
  | groupCreate p g =>
    rw [written, List.mem_singleton] at ht
    subst ht
    exact absurd hobj (not_ofStore (by decide))
  -- the platform is asked, about a store that the engine has
  | storeGroupSet p s' g =>
    simp only [handle, handleStoreGroupSet, bind_eq_ok] at h
    obtain ⟨_, _, _, _, h⟩ := h
    obtain rfl : s' = s := by
      rw [written, groupLink] at ht
      split at ht
      · cases ht
      · rw [List.mem_singleton] at ht
        subst ht
        exact ofStore_store hobj
    refine ⟨rfl, .inr (.inl ?_)⟩
    cases hl : st.stores.lookup s' with
    | none =>
      rw [hl] at h
      cases h
    | some old =>
      obtain ⟨before, after, hmem, -⟩ := List.lookup_eq_some_iff.mp hl
      rw [Roles.hasStore, hmem]
      simp
  | createStore p s' g =>
    obtain rfl : s' = s := by
      simp only [written, groupLink, claimTuples, List.mem_append, List.mem_cons, List.not_mem_nil,
        or_false] at ht
      rcases ht with ht | rfl | rfl
      · split at ht
        · cases ht
        · rw [List.mem_singleton] at ht
          subst ht
          exact ofStore_store hobj
      · exact ofStore_store hobj
      · exact ofStore_store hobj
    exact ⟨rfl, .inr (.inr ⟨p, g, rfl⟩)⟩
  | adoptStore p s' =>
    simp only [handle, handleAdoptStore, bind_eq_ok, require, guardOr_eq_ok, exists_const] at h
    obtain rfl : s' = s := by
      simp only [written, claimTuples, List.mem_cons, List.not_mem_nil, or_false] at ht
      rcases ht with rfl | rfl
      · exact ofStore_store hobj
      · exact ofStore_store hobj
    exact ⟨rfl, .inr (.inl h.2.2.1)⟩
  -- the others only delete
  | accessRemove p s' items => cases ht
  | namespaceAccessRemove p s' ns items => cases ht
  | groupAccessRemove p g items => cases ht
  | platformAccessRemove p items => cases ht
  | groupDelete p g => cases ht
  | deleteStore p s' req => cases ht

/-! ## The deletion -/

/-- The store has no owner, and no tuple is on one of its namespaces. -/
def Deletable (st : Roles) (s : String) : Prop :=
  (∀ t ∈ st.tuples.rows, t.object = ⟨.store, s⟩ → t.relation ≠ .owner) ∧
    ∀ t ∈ st.tuples.rows, t.object.typ = .namespace → t.object.ofStore s = false

/-- No tuple is on the store or on one of its namespaces. -/
def Clean (s : String) (st : Roles) : Prop := ∀ t ∈ st.tuples.rows, t.object.ofStore s = false

theorem belowFloor_of_ne {T : RoleTable} {t : RoleTuple} {s : String} (ho : t.object = ⟨.store, s⟩)
    (hr : t.relation ≠ .owner) : belowFloor T t = false := by
  have : minDirect t.object.typ t.relation = none := by
    rw [ho]
    cases hrel : t.relation with
    | owner => exact absurd hrel hr
    | _ => rfl
  rw [belowFloor, this]
  rfl

/-- The rest of the store's tuples after the first is deleted. -/
theorem filter_erase {T : RoleTable} {t : RoleTuple} {ts : List RoleTuple} {object : Obj}
    (h : T.rows.filter (·.object = object) = t :: ts) :
    (T.erase t).rows.filter (·.object = object) = ts := by
  have hnodup : (t :: ts).Nodup := h ▸ T.nodup.filter _
  have ht : t ∉ ts := (List.nodup_cons.mp hnodup).1
  rw [RoleTable.erase, List.filter_comm, h, List.filter_cons]
  simp only [ne_eq, not_true_eq_false, decide_false, Bool.false_eq_true, if_false]
  refine List.filter_eq_self.mpr fun u hu => ?_
  have : u ≠ t := fun heq => ht (heq ▸ hu)
  simpa using this

/-- Without an owner every tuple of the store goes. -/
theorem deleteAll_ok {s : String} {ts : List RoleTuple} {T : RoleTable}
    (h : T.rows.filter (·.object = ⟨.store, s⟩) = ts) (hts : ∀ t ∈ ts, t.relation ≠ .owner) :
    ∃ T', ts.foldlM deleteTuple T = .ok T' ∧
      ∀ t, t ∈ T'.rows ↔ t ∈ T.rows ∧ t.object ≠ ⟨.store, s⟩ := by
  induction ts generalizing T with
  | nil =>
    refine ⟨T, rfl, fun t => ⟨fun ht => ⟨ht, fun ho => ?_⟩, And.left⟩⟩
    have : t ∈ T.rows.filter (·.object = ⟨.store, s⟩) := List.mem_filter.mpr ⟨ht, by simpa using ho⟩
    rw [h] at this
    cases this
  | cons t ts ih =>
    have ho : t.object = ⟨.store, s⟩ := by
      have : t ∈ T.rows.filter (·.object = ⟨.store, s⟩) := h ▸ List.mem_cons_self
      simpa using (List.mem_filter.mp this).2
    obtain ⟨T', hT', hmem⟩ := ih (filter_erase h) fun u hu => hts u (List.mem_cons_of_mem t hu)
    refine ⟨T', ?_, fun u => ?_⟩
    · rw [List.foldlM_cons, deleteTuple, belowFloor_of_ne ho (hts t List.mem_cons_self)]
      exact hT'
    · rw [hmem, RoleTable.mem_erase]
      exact ⟨fun hu => ⟨hu.1.1, hu.2⟩, fun hu => ⟨⟨hu.1, fun heq => hu.2 (heq ▸ ho)⟩, hu.2⟩⟩

/-- The last owner is refused. -/
theorem deleteAll_error {s : String} {ts : List RoleTuple} {T T' : RoleTable}
    (h : T.rows.filter (·.object = ⟨.store, s⟩) = ts) (hts : ∃ t ∈ ts, t.relation = .owner) :
    ts.foldlM deleteTuple T ≠ .ok T' := by
  induction ts generalizing T with
  | nil =>
    obtain ⟨t, ht, -⟩ := hts
    cases ht
  | cons t ts ih =>
    intro hok
    rw [List.foldlM_cons, bind_eq_ok] at hok
    obtain ⟨T₁, hT₁, hok⟩ := hok
    have hT₁' := deleteTuple_eq_ok hT₁
    subst hT₁'
    by_cases hrest : ∃ u ∈ ts, u.relation = .owner
    · exact ih (filter_erase h) hrest hok
    · -- the first tuple is the only owner
      push Not at hrest
      have hr : t.relation = .owner := by
        obtain ⟨u, hu, hur⟩ := hts
        rcases List.mem_cons.mp hu with rfl | hu
        · exact hur
        · exact absurd hur (hrest u hu)
      have hmem : t ∈ T.rows.filter (·.object = ⟨.store, s⟩) := h ▸ List.mem_cons_self
      have ho : t.object = ⟨.store, s⟩ := by simpa using (List.mem_filter.mp hmem).2
      have hcount : T.rows.countP (fun u => u.gives .owner ⟨.store, s⟩) = 1 := by
        have hsplit : T.rows.countP (fun u => u.gives .owner ⟨.store, s⟩) =
            (T.rows.filter (·.object = ⟨.store, s⟩)).countP fun u => u.relation = .owner := by
          rw [List.countP_filter]
          refine List.countP_congr fun u _ => ?_
          simp [RoleTuple.gives]
        have hzero : ts.countP (fun u => (u.relation = .owner : Bool)) = 0 :=
          List.countP_eq_zero.mpr fun u hu => by simpa using hrest u hu
        rw [hsplit, h, List.countP_cons, hzero]
        simp [hr]
      have hbelow : belowFloor T t = true := by
        rw [belowFloor, ho, hr, hcount]
        simp [minDirect, (List.mem_filter.mp hmem).1]
      rw [deleteTuple, hbelow] at hT₁
      cases hT₁

theorem deleteStoreReceipt_eq_ok {st st' : Roles} {s : String}
    (h : deleteStoreReceipt st s = .ok st') :
    st.hasStore s = true ∧ st' = { st with stores := st.stores.filter (·.1 ≠ s) } := by
  simp only [deleteStoreReceipt, bind_eq_ok, guardOr_eq_ok, exists_const] at h
  exact ⟨h.1, (Except.ok.inj h.2).symm⟩

/-- **When a deletion succeeds.** For a person who may delete the store, and a store that the engine
deletes, it does so without an owner, and a purge of the decision log needs one. -/
theorem handleDeleteStore_ok {cfg : Config} {st st₀ : Roles} {p : Principal} {s : String}
    {req : DeleteReq} (hallowed : requireLifecycle cfg st p s req.confirm = .ok ())
    (hreceipt : deleteStoreReceipt st s = .ok st₀) :
    (∃ st', handleDeleteStore cfg st p s req = .ok st') ↔
      (req.purgeDecisions → cfg.decisionLog) ∧
        ∀ t ∈ st.tuples.rows, t.object = ⟨.store, s⟩ → t.relation ≠ .owner := by
  have htuples : st₀.tuples = st.tuples := by rw [(deleteStoreReceipt_eq_ok hreceipt).2]
  have hmem : ∀ t, t ∈ tuplesOf st ⟨.store, s⟩ ↔ t ∈ st.tuples.rows ∧ t.object = ⟨.store, s⟩ := by
    simp [tuplesOf]
  simp only [handleDeleteStore, hallowed, hreceipt, bind_eq_ok, guardOr_eq_ok, exists_const,
    decide_eq_true_eq, Except.ok.injEq, true_and, exists_eq_left', exists_and_left]
  refine and_congr_right fun _ => ⟨?_, fun hnone => ?_⟩
  · rintro ⟨st', hst'⟩ t ht ho hr
    obtain ⟨T', hT', -⟩ := map_eq_ok.mp hst'
    rw [htuples] at hT'
    exact deleteAll_error rfl ⟨t, (hmem t).mpr ⟨ht, ho⟩, hr⟩ hT'
  · obtain ⟨T', hT', -⟩ := deleteAll_ok (T := st.tuples) rfl
      fun t ht => hnone t ((hmem t).mp ht).1 ((hmem t).mp ht).2
    refine ⟨{ st₀ with tuples := T' }, map_eq_ok.mpr ⟨T', ?_, rfl⟩⟩
    rw [htuples]
    exact hT'

/-- **What a deletion leaves**: all tuples but those of the store's object, and no such store. -/
theorem mem_of_handleDeleteStore {cfg : Config} {st st' : Roles} {p : Principal} {s : String}
    {req : DeleteReq} (h : handleDeleteStore cfg st p s req = .ok st') :
    st'.hasStore s = false ∧
      ∀ t, t ∈ st'.tuples.rows ↔ t ∈ st.tuples.rows ∧ t.object ≠ ⟨.store, s⟩ := by
  simp only [handleDeleteStore, bind_eq_ok] at h
  obtain ⟨_, -, _, -, st₀, hreceipt, h⟩ := h
  obtain ⟨-, rfl⟩ := deleteStoreReceipt_eq_ok hreceipt
  obtain ⟨T', hT', rfl⟩ := map_eq_ok.mp h
  refine ⟨by simp [Roles.hasStore], ?_⟩
  -- an owner would have been refused
  have hnone : ∀ t ∈ tuplesOf st ⟨.store, s⟩, t.relation ≠ .owner := by
    intro t ht hr
    exact deleteAll_error (T := st.tuples) rfl ⟨t, ht, hr⟩ hT'
  obtain ⟨T'', hT'', hmem⟩ := deleteAll_ok (T := st.tuples) rfl hnone
  obtain rfl : T' = T'' := Except.ok.inj (hT'.symm.trans hT'')
  exact hmem

theorem clean_of_deletable {cfg : Config} {st st' : Roles} {p : Principal} {s : String}
    {req : DeleteReq} (h : handleDeleteStore cfg st p s req = .ok st') :
    Clean s st' ↔ ∀ t ∈ st.tuples.rows, t.object.typ = .namespace → t.object.ofStore s = false := by
  have hmem := (mem_of_handleDeleteStore h).2
  constructor
  · intro hclean t ht hns
    exact hclean t ((hmem t).mpr ⟨ht, fun ho => by rw [ho] at hns; cases hns⟩)
  · intro hns t ht
    obtain ⟨ht, ho⟩ := (hmem t).mp ht
    rw [← Bool.not_eq_true]
    intro hobj
    rcases ofStore_cases hobj with h | h
    · exact ho h
    · exact absurd hobj (by rw [hns t ht h]; decide)

/-! ## Later runs -/

/-- What changes the tuples: a request; the statements of a synchronisation of the group links, which
has read the stores before; a change of the console's own store as a managed one; an expiry; and a
change of the stores and groups outside of the console. -/
inductive RoleEvent
  | change (c : RoleChange)
  | sync (dels puts : List (String × String))
  | ownStore (dels writes : List RoleTuple)
  | expire (t : RoleTuple)
  | outside (stores : List (String × String)) (groups issuerGroups : List String)
deriving DecidableEq, Repr

/-- One event. -/
def roleStep (cfg : Config) (st : Roles) : RoleEvent → Option Roles
  | .change c => (handle cfg st c).toOption
  | .sync dels puts => do
    let st' ← (st.delete (dels.flatMap fun e => groupLink e.1 e.2)).toOption
    (st'.write (puts.flatMap fun e => groupLink e.1 e.2)).toOption
  | .ownStore dels writes => do
    let st' ← (st.delete dels).toOption
    (st'.write writes).toOption
  | .expire t => some { st with tuples := st.tuples.erase t }
  | .outside stores groups issuerGroups =>
    some { st with stores := stores, groups := groups, issuerGroups := issuerGroups }

/-- While the store is absent, no event puts a role on it: requests about it are not those of the
local admin and do not create it, a synchronisation does not write its link, and no change of the
console's own store is about it. -/
def Unassigned (s : String) (st : Roles) (e : RoleEvent) : Prop :=
  st.hasStore s = false ∧
    match e with
    | .change c => c.about = some s → c.person.storeRole = none ∧ ∀ p g, c ≠ .createStore p s g
    | .sync _ puts => ∀ e ∈ puts, e.1 ≠ s
    | .ownStore _ writes => ∀ t ∈ writes, t.object.ofStore s = false
    | .expire _ | .outside .. => True

theorem object_groupLink {s g : String} {t : RoleTuple} (h : t ∈ groupLink s g) :
    t.object = ⟨.store, s⟩ := by
  rw [groupLink] at h
  split at h
  · cases h
  · rw [List.mem_singleton.mp h]
    rfl

/-- **An absent store stays without tuples.** -/
theorem clean_step {cfg : Config} {s : String} (hs : validName s = true) (st : Roles) (e : RoleEvent)
    (st' : Roles) (hclean : Clean s st) (hok : Unassigned s st e) (h : roleStep cfg st e = some st') :
    Clean s st' := by
  intro t ht
  cases e with
  | change c =>
    rcases written_of_mem (toOption_eq_some.mp h) ht with ht | ht
    · exact hclean t ht
    · rw [← Bool.not_eq_true]
      intro hobj
      obtain ⟨habout, hasked⟩ := asked_of_written hs (toOption_eq_some.mp h) ht hobj
      obtain ⟨hrole, hcreate⟩ := hok.2 habout
      rcases hasked with hcan | hstore | ⟨p, g, rfl⟩
      · -- nobody manages a store without tuples
        rw [canQ_eq_false _ hrole (by simp)] at hcan
        · cases hcan
        · intro u hu ho
          exact absurd (hclean u hu) (by simp [ho, Obj.ofStore])
      · rw [hok.1] at hstore
        cases hstore
      · exact hcreate p g rfl
  | sync dels puts =>
    obtain ⟨st₁, h₁, h₂⟩ := Option.bind_eq_some_iff.mp h
    rcases mem_of_write (toOption_eq_some.mp h₂) ht with ht | ht
    · exact hclean t (mem_of_delete (toOption_eq_some.mp h₁) ht)
    · obtain ⟨e, he, ht⟩ := List.mem_flatMap.mp ht
      have := hok.2 e he
      simp [object_groupLink ht, Obj.ofStore, this]
  | ownStore dels writes =>
    obtain ⟨st₁, h₁, h₂⟩ := Option.bind_eq_some_iff.mp h
    rcases mem_of_write (toOption_eq_some.mp h₂) ht with ht | ht
    · exact hclean t (mem_of_delete (toOption_eq_some.mp h₁) ht)
    · exact hok.2 t ht
  | expire u =>
    cases h
    exact hclean t (RoleTable.mem_erase.mp ht).1
  | outside stores groups issuerGroups =>
    cases h
    exact hclean t ht

/-- The tuples that the events of a run add, each when it is added. -/
def granted (cfg : Config) : Roles → List RoleEvent → List RoleTuple
  | _, [] => []
  | st, e :: es =>
    match roleStep cfg st e with
    | none => []
    | some st' => st'.tuples.rows.filter (· ∉ st.tuples.rows) ++ granted cfg st' es

theorem mem_granted {cfg : Config} {st st' : Roles} {es : List RoleEvent}
    (h : run (roleStep cfg) st es = some st') {t : RoleTuple} (ht : t ∈ st'.tuples.rows) :
    t ∈ st.tuples.rows ∨ t ∈ granted cfg st es := by
  induction es generalizing st with
  | nil =>
    cases h
    exact .inl ht
  | cons e es ih =>
    obtain ⟨st₁, hstep, h⟩ := run_cons.mp h
    simp only [granted, hstep, List.mem_append, List.mem_filter, decide_eq_true_eq]
    rcases ih h with ht | ht
    · by_cases hold : t ∈ st.tuples.rows
      · exact .inl hold
      · exact .inr (.inl ⟨ht, hold⟩)
    · exact .inr (.inr ht)

/-- The tuples on other objects, and those of the store that were granted in a run. -/
def since (cfg : Config) (s : String) (st : Roles) (es : List RoleEvent) (T : List RoleTuple) :
    List RoleTuple :=
  T.filter fun t => !t.object.ofStore s || t ∈ granted cfg st es

/-- Deleting the store succeeds and leaves no tuple about it. Later, after any events that put no
role on the absent store, whatever a person may do with a store of the name or with one of its
namespaces, they may do by what has been granted since. -/
def DeletesCleanly (cfg : Config) (st : Roles) (p : Principal) (s : String) (req : DeleteReq) : Prop :=
  ∃ st', handleDeleteStore cfg st p s req = .ok st' ∧ Clean s st' ∧
    ∀ es st₁, run (roleStep cfg) st' es = some st₁ →
      Along (roleStep cfg) (Unassigned s) st' es →
      ∀ es' st₂, run (roleStep cfg) st₁ es' = some st₂ → ∀ q relation o, o.ofStore s = true →
        canQ cfg st₂.tuples.rows q relation o =
          canQ cfg (since cfg s st₁ es' st₂.tuples.rows) q relation o

/-- **A deletion is clean iff the store has no owner and no role on a namespace**, for every person
who may delete the store and every store that the engine deletes. -/
theorem deletes_cleanly_iff {cfg : Config} {st st₀ : Roles} {p : Principal} {s : String}
    (req : DeleteReq) (hallowed : requireLifecycle cfg st p s req.confirm = .ok ())
    (hreceipt : deleteStoreReceipt st s = .ok st₀) :
    DeletesCleanly cfg st p s req ↔
      (req.purgeDecisions → cfg.decisionLog) ∧ Deletable st s := by
  have hs : validName s = true := by
    simp only [requireLifecycle, bind_eq_ok, guardOr_eq_ok, exists_const] at hallowed
    exact hallowed.1
  have hok := handleDeleteStore_ok hallowed hreceipt
  constructor
  · rintro ⟨st', h, hclean, -⟩
    obtain ⟨hpurge, howner⟩ := hok.mp ⟨st', h⟩
    exact ⟨hpurge, howner, (clean_of_deletable h).mp hclean⟩
  · rintro ⟨hpurge, howner, hns⟩
    obtain ⟨st', h⟩ := hok.mpr ⟨hpurge, howner⟩
    have hclean := (clean_of_deletable h).mpr hns
    refine ⟨st', h, hclean, fun es st₁ hrun halong es' st₂ hrun' q relation o _ => ?_⟩
    have hclean₁ : Clean s st₁ := halong.run (clean_step hs) hclean hrun
    -- every tuple about the store is one of the later run, so none is left out
    have hall : since cfg s st₁ es' st₂.tuples.rows = st₂.tuples.rows := by
      refine List.filter_eq_self.mpr fun t ht => ?_
      rcases mem_granted hrun' ht with hold | hnew
      · simp [hclean₁ t hold]
      · simp [hnew]
    rw [hall]

/-- A console of one platform admin. -/
def rootConfig : Config := ⟨"console", "default", false, 5⟩

/-- The platform admin. -/
def root : Principal := ⟨.user, "root", [], none, "demo", false⟩

/-- The tuples of a console with a store of the engine that nobody has claimed. -/
def unclaimedStore : Roles where
  tuples := ⟨[⟨root.user, .admin, rootConfig.platform⟩], by decide⟩
  stores := [("demo", "")]
  groups := ["default"]
  issuerGroups := []

/-- The unclaimed store is deleted cleanly. -/
theorem deletes_cleanly_unclaimed :
    requireLifecycle rootConfig unclaimedStore root "demo" "demo" = .ok () ∧
      DeletesCleanly rootConfig unclaimedStore root "demo" ⟨"demo", false⟩ := by
  have hallowed : requireLifecycle rootConfig unclaimedStore root "demo" "demo" = .ok () := by decide
  have hreceipt : deleteStoreReceipt unclaimedStore "demo" = .ok { unclaimedStore with stores := [] } := by
    decide
  refine ⟨hallowed, (deletes_cleanly_iff ⟨"demo", false⟩ hallowed hreceipt).mpr ⟨by simp, ?_, ?_⟩⟩
  · decide
  · decide

/-- A store that the platform admin has just created: its owner is refused, and the store stays. -/
theorem created_store_is_not_deleted :
    ∃ st, handle rootConfig { unclaimedStore with stores := [] }
        (.createStore root "demo" "default") = .ok st ∧
      requireLifecycle rootConfig st root "demo" "demo" = .ok () ∧
      (∃ st₀, deleteStoreReceipt st "demo" = .ok st₀) ∧
      handleDeleteStore rootConfig st root "demo" ⟨"demo", false⟩ =
        .error (.floor .owner ⟨.store, "demo"⟩) :=
  ⟨_, rfl, rfl, ⟨_, rfl⟩, rfl⟩

end PgAuthz.Console
