import Mathlib.Data.Finset.Image
import Mathlib.Data.Finset.Union
import PgAuthz.Transition.Runs

/-!
# The group links of the console

The engine keeps which group a store belongs to. The console mirrors this as link tuples of its own store,
through which the roles on a group reach the stores of the group. Moving and creating a store write the
link in the transaction that changes the membership, under the locks of the console. Every listing also
runs a synchronisation: it reads the membership, then the links, folds the links into a map with one entry
for each store, and writes the differences one statement at a time, without a lock or a transaction.

A synchronisation repairs a store with several links only if the one that it reads last is the only wrong
one. A move that commits between its reads makes it restore the old link.

## Main definitions

* `Membership`, `Link`: the groups of the stores, and the link tuples
* `delSet`, `putSet`: the differences that a synchronisation writes
* `step`: synchronisations, moves and creations, one statement or transaction at a time
* `Mirror`: the links are those of the membership
* `Correctable`: links that a synchronisation puts right
* `InTurn`: moves and creations start on stores with no wrong link, and not beside a synchronisation

## Main results

* `mirror_exec_iff`: what one synchronisation puts right
* `inv_step`: what every step in turn keeps
* `links_follow_membership`: both for one synchronisation and for all runs
-/

namespace PgAuthz.Console

open Transition

/-! ## Membership and links -/

/-- The stores of the engine and their groups. An ungrouped store has the empty name. -/
structure Membership where
  stores : Finset String
  group : String → String
  known : ∀ s, group s ≠ "" → s ∈ stores

/-- A link tuple: a store and its group. -/
abbrev Link := String × String

/-- The membership with the store `s` in the group `g`. -/
def Membership.put (m : Membership) (s g : String) : Membership where
  stores := insert s m.stores
  group := Function.update m.group s g
  known := by
    intro t ht
    by_cases hts : t = s
    · exact hts ▸ Finset.mem_insert_self _ _
    · rw [Function.update_of_ne hts] at ht
      exact Finset.mem_insert_of_mem (m.known t ht)

@[simp]
theorem Membership.put_group_self (m : Membership) (s g : String) : (m.put s g).group s = g :=
  Function.update_self ..

theorem Membership.put_group_of_ne (m : Membership) {s t : String} (g : String) (h : t ≠ s) :
    (m.put s g).group t = m.group t :=
  Function.update_of_ne h ..

/-- The links are exactly those of the grouped stores. -/
def Mirror (m : Membership) (links : Finset Link) : Prop :=
  ∀ s g, (s, g) ∈ links ↔ m.group s = g ∧ g ≠ ""

/-! ## One synchronisation -/

/-- The group that a store is linked to, as the rows are folded: the last row of a store wins. -/
def linkedTo (rows : List Link) (s : String) : String :=
  (rows.reverse.lookup s).getD ""

/-- The links that are deleted. -/
def delSet (m : Membership) (rows : List Link) : Finset Link :=
  ((rows.map Prod.fst).toFinset.filter fun s => m.group s ≠ linkedTo rows s).image
    fun s => (s, linkedTo rows s)

/-- The links that are written. -/
def putSet (m : Membership) (rows : List Link) : Finset Link :=
  (m.stores.filter fun s => m.group s ≠ "" ∧ linkedTo rows s ≠ m.group s).image
    fun s => (s, m.group s)

/-- The statements of a synchronisation that has read `rows`, in an order of the two maps. -/
structure IsPlan (m : Membership) (rows dels puts : List Link) : Prop where
  dels : dels.toFinset = delSet m rows
  puts : puts.toFinset = putSet m rows

instance (m : Membership) (rows dels puts : List Link) : Decidable (IsPlan m rows dels puts) :=
  decidable_of_iff (dels.toFinset = delSet m rows ∧ puts.toFinset = putSet m rows)
    ⟨fun h => ⟨h.1, h.2⟩, fun h => ⟨h.dels, h.puts⟩⟩

/-- The links after all statements. -/
def execAll (dels puts : List Link) (links : Finset Link) : Finset Link :=
  puts.foldl (fun l x => insert x l) (dels.foldl Finset.erase links)

/-- Every link is to the group of its store, or it is wrong and the one that is read last. -/
def Correctable (m : Membership) (rows : List Link) : Prop :=
  ∀ s g, (s, g) ∈ rows → (m.group s = g ∧ g ≠ "") ∨ (m.group s ≠ g ∧ linkedTo rows s = g)

theorem mem_of_lookup {rows : List Link} {s g : String} (h : rows.reverse.lookup s = some g) :
    (s, g) ∈ rows := by
  obtain ⟨before, after, hrows, -⟩ := List.lookup_eq_some_iff.mp h
  rw [← List.mem_reverse, hrows]
  exact List.mem_append_right _ List.mem_cons_self

theorem linkedTo_mem {rows : List Link} {s g : String} (h : (s, g) ∈ rows) :
    (s, linkedTo rows s) ∈ rows := by
  obtain ⟨g', hg'⟩ : ∃ g', rows.reverse.lookup s = some g' := by
    rw [← Option.isSome_iff_exists, List.lookup_isSome_iff]
    exact ⟨(s, g), List.mem_reverse.mpr h, by simp⟩
  rw [linkedTo, hg', Option.getD_some]
  exact mem_of_lookup hg'

theorem linkedTo_mem_of_ne {rows : List Link} {s : String} (h : linkedTo rows s ≠ "") :
    (s, linkedTo rows s) ∈ rows := by
  cases hl : rows.reverse.lookup s with
  | none => exact absurd (by rw [linkedTo, hl]; rfl) h
  | some g => exact linkedTo_mem (mem_of_lookup hl)

theorem mem_delSet {m : Membership} {rows : List Link} {s g : String} :
    (s, g) ∈ delSet m rows ↔ (s, g) ∈ rows ∧ m.group s ≠ g ∧ linkedTo rows s = g := by
  simp only [delSet, Finset.mem_image, Finset.mem_filter, List.mem_toFinset, List.mem_map,
    Prod.mk.injEq]
  constructor
  · rintro ⟨t, ⟨⟨⟨t', g'⟩, hrow, rfl⟩, hne⟩, rfl, rfl⟩
    exact ⟨linkedTo_mem hrow, hne, rfl⟩
  · rintro ⟨hrow, hne, rfl⟩
    exact ⟨s, ⟨⟨(s, _), hrow, rfl⟩, hne⟩, rfl, rfl⟩

theorem mem_putSet {m : Membership} {rows : List Link} {s g : String} :
    (s, g) ∈ putSet m rows ↔ m.group s = g ∧ g ≠ "" ∧ linkedTo rows s ≠ g := by
  simp only [putSet, Finset.mem_image, Finset.mem_filter, Prod.mk.injEq]
  constructor
  · rintro ⟨t, ⟨-, hne, hlinked⟩, rfl, rfl⟩
    exact ⟨rfl, hne, hlinked⟩
  · rintro ⟨rfl, hne, hlinked⟩
    exact ⟨s, ⟨m.known s hne, hne, hlinked⟩, rfl, rfl⟩

theorem mem_foldl_erase {dels : List Link} {links : Finset Link} {l : Link} :
    l ∈ dels.foldl Finset.erase links ↔ l ∈ links ∧ l ∉ dels := by
  induction dels generalizing links with
  | nil => simp
  | cons d dels ih =>
    rw [List.foldl_cons, ih, Finset.mem_erase, List.mem_cons, not_or]
    tauto

theorem mem_foldl_insert {puts : List Link} {links : Finset Link} {l : Link} :
    l ∈ puts.foldl (fun l x => insert x l) links ↔ l ∈ links ∨ l ∈ puts := by
  induction puts generalizing links with
  | nil => simp
  | cons p puts ih =>
    rw [List.foldl_cons, ih, Finset.mem_insert, List.mem_cons]
    tauto

theorem mem_execAll {dels puts : List Link} {links : Finset Link} {l : Link} :
    l ∈ execAll dels puts links ↔ (l ∈ links ∧ l ∉ dels) ∨ l ∈ puts := by
  rw [execAll, mem_foldl_insert, mem_foldl_erase]

/-- **One synchronisation leaves the links of the membership exactly if the links are correctable.** -/
theorem mirror_exec_iff {m : Membership} {rows dels puts : List Link} (h : IsPlan m rows dels puts) :
    Mirror m (execAll dels puts rows.toFinset) ↔ Correctable m rows := by
  have hdel : ∀ l, l ∈ dels ↔ l ∈ delSet m rows := fun l => by rw [← h.dels, List.mem_toFinset]
  have hput : ∀ l, l ∈ puts ↔ l ∈ putSet m rows := fun l => by rw [← h.puts, List.mem_toFinset]
  simp only [Mirror, mem_execAll, List.mem_toFinset, hdel, hput, mem_delSet, mem_putSet]
  constructor
  · intro hmirror s g hrow
    by_cases hdeleted : m.group s ≠ g ∧ linkedTo rows s = g
    · exact .inr hdeleted
    · exact .inl ((hmirror s g).mp (.inl ⟨hrow, fun hd => hdeleted hd.2⟩))
  · intro hcorrectable s g
    constructor
    · rintro (⟨hrow, hkept⟩ | ⟨rfl, hne, -⟩)
      · exact (hcorrectable s g hrow).resolve_right fun hd => hkept ⟨hrow, hd⟩
      · exact ⟨rfl, hne⟩
    · rintro ⟨rfl, hne⟩
      by_cases hlinked : linkedTo rows s = m.group s
      · -- the wanted group is the one that is read last
        refine .inl ⟨?_, fun hd => hd.2.1 rfl⟩
        rw [← hlinked]
        exact linkedTo_mem_of_ne (hlinked ▸ hne)
      · exact .inr ⟨rfl, hne, hlinked⟩

/-! ## Synchronisations beside moves and creations -/

/-- A synchronisation that has read the membership, or the links too and has statements left. -/
inductive Sync
  | wanting (m : Membership)
  | running (dels puts : List Link)

/-- The changes of the console that write links. The empty group detaches. -/
inductive Change
  | move (store group : String)
  | create (store group : String)
deriving DecidableEq

/-- The store of a change. -/
def Change.store : Change → String
  | move s _ => s
  | create s _ => s

/-- The group that the store gets. -/
def Change.group : Change → String
  | move _ g => g
  | create _ g => g

/-- The change creates a store. -/
def Change.isCreate : Change → Bool
  | move _ _ => false
  | create _ _ => true

/-- The transaction of a change: the group that it has read, and the link that it has deleted. -/
structure OpenChange where
  change : Change
  old : String
  dropped : Finset Link

/-- The links that a change writes. A move to the group of the store writes nothing. -/
def OpenChange.added (c : OpenChange) : Finset Link :=
  if c.change.group = "" ∨ c.old = c.change.group then ∅ else {(c.change.store, c.change.group)}

/-- Engine, console store and what is in flight. -/
structure LinkState where
  membership : Membership
  links : Finset Link
  syncs : List Sync
  changes : List OpenChange

/-- The reads, statements and transactions. -/
inductive LinkEvent
  | listStores
  | listLinks (sync : ℕ) (rows dels puts : List Link)
  | exec (sync : ℕ)
  | close (sync : ℕ)
  | start (change : Change)
  | commit (change : ℕ)
  | abort (change : ℕ)

/--
The locks let a change start. A move holds the platform exclusively, a creation shares it and holds its
store. A move reads the group of an existing store, and a creation needs a name that is not taken.
-/
def mayStart (st : LinkState) : Change → Bool
  | .move s _ => st.changes.isEmpty && decide (s ∈ st.membership.stores)
  | .create s _ => decide (s ∉ st.membership.stores) &&
      st.changes.all fun c => c.change.isCreate && decide (c.change.store ≠ s)

/-- The statements of a change, up to its commit. -/
def openChange (st : LinkState) (c : Change) : OpenChange :=
  let old := st.membership.group c.store
  { change := c
    old := old
    dropped := if old ≠ "" ∧ old ≠ c.group then st.links.filter (· = (c.store, old)) else ∅ }

/-- One step. -/
def step (st : LinkState) : LinkEvent → Option LinkState
  | .listStores => some { st with syncs := st.syncs ++ [.wanting st.membership] }
  | .listLinks k rows dels puts =>
    match st.syncs[k]? with
    | some (.wanting m) =>
      if rows.toFinset = st.links ∧ IsPlan m rows dels puts then
        some { st with syncs := st.syncs.set k (.running dels puts) }
      else none
    | _ => none
  | .exec k =>
    match st.syncs[k]? with
    | some (.running (d :: dels) puts) =>
      some { st with links := st.links.erase d, syncs := st.syncs.set k (.running dels puts) }
    | some (.running [] (p :: puts)) =>
      some { st with links := insert p st.links, syncs := st.syncs.set k (.running [] puts) }
    | _ => none
  | .close k =>
    match st.syncs[k]? with
    | some (.running [] []) => some { st with syncs := st.syncs.eraseIdx k }
    | _ => none
  | .start c =>
    if mayStart st c then some { st with changes := st.changes ++ [openChange st c] } else none
  | .commit k =>
    match st.changes[k]? with
    | some c => some { st with
        membership := st.membership.put c.change.store c.change.group
        links := st.links \ c.dropped ∪ c.added
        changes := st.changes.eraseIdx k }
    | none => none
  | .abort k =>
    match st.changes[k]? with
    | some _ => some { st with changes := st.changes.eraseIdx k }
    | none => none

/-- Every link of the store is to its group. -/
def Settled (st : LinkState) (s : String) : Prop :=
  ∀ g, (s, g) ∈ st.links → st.membership.group s = g ∧ g ≠ ""

/--
A synchronisation starts with no change open, and a change starts with no synchronisation in flight and on
a store whose links are right.
-/
def InTurn (st : LinkState) : LinkEvent → Prop
  | .listStores => st.changes = []
  | .start c => st.syncs = [] ∧ Settled st c.store
  | _ => True

/-! ## What every step keeps -/

/-- What is left of a synchronisation is right for the current membership. -/
structure Pending (m : Membership) (links : Finset Link) (dels puts : List Link) : Prop where
  dels_wrong : ∀ s g, (s, g) ∈ dels → m.group s ≠ g
  puts_right : ∀ s g, (s, g) ∈ puts → m.group s = g ∧ g ≠ ""
  wrong_left : ∀ s g, (s, g) ∈ links → m.group s ≠ g → (s, g) ∈ dels
  missing_left : ∀ s, m.group s ≠ "" → (s, m.group s) ∉ links → (s, m.group s) ∈ puts

/-- A synchronisation in flight fits the current state. -/
def Sync.Fits (st : LinkState) : Sync → Prop
  | wanting m => m = st.membership
  | running dels puts => Pending st.membership st.links dels puts

/-- An open change has read the current group of its store, and deletes its links if it moves it. -/
structure OpenChange.Fits (st : LinkState) (c : OpenChange) : Prop where
  settled : Settled st c.change.store
  old : c.old = st.membership.group c.change.store
  dropped : c.old ≠ c.change.group → ∀ g, (c.change.store, g) ∈ st.links →
    (c.change.store, g) ∈ c.dropped
  only : ∀ s g, (s, g) ∈ c.dropped → s = c.change.store ∧ g ≠ c.change.group

/-- No store has two links, and synchronisations and changes are not beside each other. -/
structure LinkInv (st : LinkState) : Prop where
  single : ∀ s g g', (s, g) ∈ st.links → (s, g') ∈ st.links → g = g'
  named : ∀ s g, (s, g) ∈ st.links → g ≠ ""
  apart : st.syncs = [] ∨ st.changes = []
  syncs : ∀ y ∈ st.syncs, y.Fits st
  changes : ∀ c ∈ st.changes, c.Fits st
  distinct : st.changes.Pairwise fun c c' => c.change.store ≠ c'.change.store

variable {st st' : LinkState}

/-- Deleting wrong links and adding right ones leaves what other synchronisations have to do. -/
theorem Pending.links {m : Membership} {links links' : Finset Link} {dels puts : List Link}
    (h : Pending m links dels puts)
    (hwrong : ∀ s g, (s, g) ∈ links' → m.group s ≠ g → (s, g) ∈ links)
    (hright : ∀ s, (s, m.group s) ∈ links → (s, m.group s) ∈ links') :
    Pending m links' dels puts where
  dels_wrong := h.dels_wrong
  puts_right := h.puts_right
  wrong_left := fun s g hl hne => h.wrong_left s g (hwrong s g hl hne) hne
  missing_left := fun s hne hl => h.missing_left s hne fun hl' => hl (hright s hl')

/-- The links change beside synchronisations as `Pending.links` allows. -/
theorem Sync.Fits.links {y : Sync} {links' : Finset Link} {syncs' : List Sync} (h : y.Fits st)
    (hwrong : ∀ s g, (s, g) ∈ links' → st.membership.group s ≠ g → (s, g) ∈ st.links)
    (hright : ∀ s, (s, st.membership.group s) ∈ st.links → (s, st.membership.group s) ∈ links') :
    y.Fits { st with links := links', syncs := syncs' } := by
  cases y with
  | wanting m => exact h
  | running dels puts => exact Pending.links h hwrong hright

theorem LinkInv.changes_nil {k : ℕ} {y : Sync} (h : LinkInv st) (hy : st.syncs[k]? = some y) :
    st.changes = [] := by
  refine h.apart.resolve_left fun hnil => ?_
  rw [hnil] at hy
  simp at hy

theorem LinkInv.syncs_nil {k : ℕ} {c : OpenChange} (h : LinkInv st) (hc : st.changes[k]? = some c) :
    st.syncs = [] := by
  refine h.apart.resolve_right fun hnil => ?_
  rw [hnil] at hc
  simp at hc

/-- After its reads a synchronisation deletes every wrong link and writes every missing one. -/
theorem pending_of_plan {m : Membership} {links : Finset Link} {rows dels puts : List Link}
    (hsingle : ∀ s g g', (s, g) ∈ links → (s, g') ∈ links → g = g')
    (hrows : rows.toFinset = links) (hplan : IsPlan m rows dels puts) :
    Pending m links dels puts := by
  have hmem : ∀ l, l ∈ rows ↔ l ∈ links := fun l => by rw [← hrows, List.mem_toFinset]
  have hdel : ∀ l, l ∈ dels ↔ l ∈ delSet m rows := fun l => by rw [← hplan.dels, List.mem_toFinset]
  have hput : ∀ l, l ∈ puts ↔ l ∈ putSet m rows := fun l => by rw [← hplan.puts, List.mem_toFinset]
  refine ⟨?_, ?_, ?_, ?_⟩
  · intro s g hd
    exact (mem_delSet.mp ((hdel _).mp hd)).2.1
  · intro s g hp
    obtain ⟨hg, hne, -⟩ := mem_putSet.mp ((hput _).mp hp)
    exact ⟨hg, hne⟩
  · intro s g hl hne
    -- the only link of the store is the one that is read last
    have hlast : linkedTo rows s = g :=
      hsingle s _ _ ((hmem _).mp (linkedTo_mem ((hmem _).mpr hl))) hl
    exact (hdel _).mpr (mem_delSet.mpr ⟨(hmem _).mpr hl, hne, hlast⟩)
  · intro s hne hl
    refine (hput _).mpr (mem_putSet.mpr ⟨rfl, hne, fun hlinked => hl ?_⟩)
    rw [← hmem, ← hlinked]
    exact linkedTo_mem_of_ne (hlinked ▸ hne)

/-! ## Steps of a synchronisation -/

theorem LinkInv.listStores (h : LinkInv st) (hturn : st.changes = []) :
    LinkInv { st with syncs := st.syncs ++ [.wanting st.membership] } where
  single := h.single
  named := h.named
  apart := .inr hturn
  syncs := by
    intro y hy
    rcases List.mem_append.mp hy with hy | hy
    · exact (h.syncs y hy).links (fun _ _ hl _ => hl) fun _ hl => hl
    · rw [List.mem_singleton] at hy
      subst hy
      rfl
  changes := by
    intro c hc
    rw [hturn] at hc
    exact absurd hc List.not_mem_nil
  distinct := h.distinct

/-- A synchronisation takes a step: the links change as the others allow, and it has the rest to do. -/
theorem LinkInv.sync {k : ℕ} {y y' : Sync} {links' : Finset Link} (h : LinkInv st)
    (hy : st.syncs[k]? = some y)
    (hsingle : ∀ s g g', (s, g) ∈ links' → (s, g') ∈ links' → g = g')
    (hnamed : ∀ s g, (s, g) ∈ links' → g ≠ "")
    (hwrong : ∀ s g, (s, g) ∈ links' → st.membership.group s ≠ g → (s, g) ∈ st.links)
    (hright : ∀ s, (s, st.membership.group s) ∈ st.links → (s, st.membership.group s) ∈ links')
    (hfits : y'.Fits { st with links := links', syncs := st.syncs.set k y' }) :
    LinkInv { st with links := links', syncs := st.syncs.set k y' } where
  single := hsingle
  named := hnamed
  apart := .inr (h.changes_nil hy)
  syncs := by
    intro z hz
    rcases List.mem_or_eq_of_mem_set hz with hz | rfl
    · exact (h.syncs z hz).links hwrong hright
    · exact hfits
  changes := by
    intro c hc
    rw [show st.changes = [] from h.changes_nil hy] at hc
    exact absurd hc List.not_mem_nil
  distinct := h.distinct

theorem LinkInv.listLinks {k : ℕ} {m : Membership} {rows dels puts : List Link} (h : LinkInv st)
    (hy : st.syncs[k]? = some (.wanting m)) (hrows : rows.toFinset = st.links)
    (hplan : IsPlan m rows dels puts) :
    LinkInv { st with syncs := st.syncs.set k (.running dels puts) } := by
  refine h.sync hy h.single h.named (fun _ _ hl _ => hl) (fun _ hl => hl) ?_
  have hm : m = st.membership := h.syncs _ (List.mem_of_getElem? hy)
  subst hm
  exact pending_of_plan h.single hrows hplan

theorem LinkInv.execDel {k : ℕ} {d : Link} {dels puts : List Link} (h : LinkInv st)
    (hy : st.syncs[k]? = some (.running (d :: dels) puts)) :
    LinkInv { st with links := st.links.erase d, syncs := st.syncs.set k (.running dels puts) } := by
  have hpending : Pending st.membership st.links (d :: dels) puts :=
    h.syncs _ (List.mem_of_getElem? hy)
  have hright : ∀ s, (s, st.membership.group s) ∈ st.links →
      (s, st.membership.group s) ∈ st.links.erase d := by
    intro s hl
    refine Finset.mem_erase.mpr ⟨fun heq => ?_, hl⟩
    -- the deleted link is a wrong one
    exact hpending.dels_wrong s _ (heq ▸ List.mem_cons_self) rfl
  refine h.sync hy ?_ ?_ (fun _ _ hl _ => Finset.mem_of_mem_erase hl) hright ⟨?_, ?_, ?_, ?_⟩
  · intro s g g' hg hg'
    exact h.single s g g' (Finset.mem_of_mem_erase hg) (Finset.mem_of_mem_erase hg')
  · intro s g hg
    exact h.named s g (Finset.mem_of_mem_erase hg)
  · intro s g hd
    exact hpending.dels_wrong s g (List.mem_cons_of_mem d hd)
  · exact hpending.puts_right
  · intro s g hl hne
    obtain ⟨hnd, hl⟩ := Finset.mem_erase.mp hl
    exact (List.mem_cons.mp (hpending.wrong_left s g hl hne)).resolve_left hnd
  · intro s hne hl
    exact hpending.missing_left s hne fun hl' => hl (hright s hl')

theorem LinkInv.execPut {k : ℕ} {p : Link} {puts : List Link} (h : LinkInv st)
    (hy : st.syncs[k]? = some (.running [] (p :: puts))) :
    LinkInv { st with links := insert p st.links, syncs := st.syncs.set k (.running [] puts) } := by
  obtain ⟨t, q⟩ := p
  have hpending : Pending st.membership st.links [] ((t, q) :: puts) :=
    h.syncs _ (List.mem_of_getElem? hy)
  obtain ⟨rfl, hq⟩ := hpending.puts_right t q List.mem_cons_self
  -- all wrong links are deleted by now
  have hall : ∀ s g, (s, g) ∈ st.links → st.membership.group s = g := by
    intro s g hl
    by_contra hne
    exact absurd (hpending.wrong_left s g hl hne) List.not_mem_nil
  have hall' : ∀ s g, (s, g) ∈ insert (t, st.membership.group t) st.links →
      st.membership.group s = g := by
    intro s g hl
    rcases Finset.mem_insert.mp hl with heq | hl
    · obtain ⟨rfl, rfl⟩ := Prod.mk.inj heq
      rfl
    · exact hall s g hl
  refine h.sync hy ?_ ?_ ?_ (fun s hl => Finset.mem_insert_of_mem hl) ⟨?_, ?_, ?_, ?_⟩
  · intro s g g' hg hg'
    rw [← hall' s g hg, ← hall' s g' hg']
  · intro s g hg
    rcases Finset.mem_insert.mp hg with heq | hg
    · obtain ⟨rfl, rfl⟩ := Prod.mk.inj heq
      exact hq
    · exact h.named s g hg
  · intro s g hl hne
    exact absurd (hall' s g hl) hne
  · intro s g hd
    exact absurd hd List.not_mem_nil
  · intro s g hp
    exact hpending.puts_right s g (List.mem_cons_of_mem _ hp)
  · intro s g hl hne
    exact absurd (hall' s g hl) hne
  · intro s hne hl
    have hmem := hpending.missing_left s hne fun hl' => hl (Finset.mem_insert_of_mem hl')
    refine (List.mem_cons.mp hmem).resolve_left fun heq => hl ?_
    rw [heq]
    exact Finset.mem_insert_self _ _

theorem LinkInv.close {k : ℕ} {y : Sync} (h : LinkInv st) (hy : st.syncs[k]? = some y) :
    LinkInv { st with syncs := st.syncs.eraseIdx k } where
  single := h.single
  named := h.named
  apart := .inr (h.changes_nil hy)
  syncs := by
    intro z hz
    exact (h.syncs z (List.mem_of_mem_eraseIdx hz)).links (fun _ _ hl _ => hl) fun _ hl => hl
  changes := by
    intro c hc
    rw [show st.changes = [] from h.changes_nil hy] at hc
    exact absurd hc List.not_mem_nil
  distinct := h.distinct

/-- A synchronisation that has nothing left to do leaves the links of the membership. -/
theorem LinkInv.mirror_of_done {k : ℕ} (h : LinkInv st)
    (hy : st.syncs[k]? = some (.running [] [])) : Mirror st.membership st.links := by
  have hpending : Pending st.membership st.links [] [] := h.syncs _ (List.mem_of_getElem? hy)
  intro s g
  constructor
  · intro hl
    refine ⟨?_, h.named s g hl⟩
    by_contra hne
    exact absurd (hpending.wrong_left s g hl hne) List.not_mem_nil
  · rintro ⟨rfl, hne⟩
    by_contra hl
    exact absurd (hpending.missing_left s hne hl) List.not_mem_nil

/-! ## Steps of a change -/

theorem fits_openChange {c : Change} (hsettled : Settled st c.store) : (openChange st c).Fits st where
  settled := hsettled
  old := rfl
  dropped := by
    intro hne g hl
    obtain ⟨hg, hempty⟩ := hsettled g hl
    simp only [openChange] at hne hl ⊢
    rw [if_pos ⟨hg ▸ hempty, hne⟩, Finset.mem_filter]
    exact ⟨hl, by rw [hg]⟩
  only := by
    intro s g hd
    simp only [openChange] at hd ⊢
    split at hd
    · rename_i hmoves
      obtain ⟨rfl, rfl⟩ := Prod.mk.inj (Finset.mem_filter.mp hd).2
      exact ⟨rfl, hmoves.2⟩
    · exact absurd hd (Finset.notMem_empty _)

theorem LinkInv.start {c : Change} (h : LinkInv st) (hstart : mayStart st c = true)
    (hsyncs : st.syncs = []) (hsettled : Settled st c.store) :
    LinkInv { st with changes := st.changes ++ [openChange st c] } where
  single := h.single
  named := h.named
  apart := .inl hsyncs
  syncs := by
    intro y hy
    rw [show st.syncs = [] from hsyncs] at hy
    exact absurd hy List.not_mem_nil
  changes := by
    intro c' hc'
    rcases List.mem_append.mp hc' with hc' | hc'
    · obtain ⟨hs, ho, hd, hon⟩ := h.changes c' hc'
      exact ⟨hs, ho, hd, hon⟩
    · rw [List.mem_singleton] at hc'
      subst hc'
      obtain ⟨hs, ho, hd, hon⟩ := fits_openChange hsettled
      exact ⟨hs, ho, hd, hon⟩
  distinct := by
    refine List.pairwise_append.mpr ⟨h.distinct, List.pairwise_singleton _ _, ?_⟩
    intro c' hc' c'' hc''
    rw [List.mem_singleton] at hc''
    subst hc''
    cases c with
    | move s g =>
      simp only [mayStart, Bool.and_eq_true, List.isEmpty_iff] at hstart
      rw [hstart.1] at hc'
      exact absurd hc' List.not_mem_nil
    | create s g =>
      simp only [mayStart, Bool.and_eq_true, List.all_eq_true, decide_eq_true_eq] at hstart
      exact (hstart.2 c' hc').2

/-- The links of other stores are not touched by a change. -/
theorem OpenChange.Fits.mem_other {c : OpenChange} (h : c.Fits st) {s g : String}
    (hs : s ≠ c.change.store) : (s, g) ∈ st.links \ c.dropped ∪ c.added ↔ (s, g) ∈ st.links := by
  have hadded : (s, g) ∉ c.added := by
    unfold OpenChange.added
    split
    · exact Finset.notMem_empty _
    · rw [Finset.mem_singleton]
      exact fun heq => hs (Prod.mk.inj heq).1
  have hdropped : (s, g) ∉ c.dropped := fun hd => hs (h.only s g hd).1
  simp [hadded, hdropped]

/-- After a change the links of its store are to the new group. -/
theorem OpenChange.Fits.mem_own {c : OpenChange} (h : c.Fits st) {g : String}
    (hl : (c.change.store, g) ∈ st.links \ c.dropped ∪ c.added) : g = c.change.group ∧ g ≠ "" := by
  rcases Finset.mem_union.mp hl with hl | hl
  · obtain ⟨hl, hkept⟩ := Finset.mem_sdiff.mp hl
    obtain ⟨hg, hne⟩ := h.settled g hl
    refine ⟨?_, hne⟩
    -- a link that stays is to the group that the store keeps
    by_contra hnew
    exact hkept (h.dropped (by rw [h.old, hg]; exact hnew) g hl)
  · unfold OpenChange.added at hl
    split at hl
    · exact absurd hl (Finset.notMem_empty _)
    · rename_i hne
      push Not at hne
      obtain ⟨-, rfl⟩ := Prod.mk.inj (Finset.mem_singleton.mp hl)
      exact ⟨rfl, hne.1⟩

theorem LinkInv.commit {k : ℕ} {c : OpenChange} (h : LinkInv st) (hc : st.changes[k]? = some c) :
    LinkInv { st with
      membership := st.membership.put c.change.store c.change.group
      links := st.links \ c.dropped ∪ c.added
      changes := st.changes.eraseIdx k } := by
  have hfits := h.changes c (List.mem_of_getElem? hc)
  obtain ⟨before, after, heq, -, herase⟩ := split_of_getElem? hc
  have hother : ∀ c' ∈ st.changes.eraseIdx k, c' ∈ st.changes ∧ c'.change.store ≠ c.change.store := by
    intro c' hc'
    refine ⟨List.mem_of_mem_eraseIdx hc', ?_⟩
    have hdistinct := h.distinct
    rw [heq, List.pairwise_append, List.pairwise_cons] at hdistinct
    rw [herase] at hc'
    rcases List.mem_append.mp hc' with hc' | hc'
    · exact hdistinct.2.2 c' hc' c List.mem_cons_self
    · exact (hdistinct.2.1.1 c' hc').symm
  refine ⟨?_, ?_, .inl (h.syncs_nil hc), ?_, ?_, h.distinct.sublist (List.eraseIdx_sublist _ _)⟩
  · intro s g g' hg hg'
    by_cases hs : s = c.change.store
    · subst hs
      rw [(hfits.mem_own hg).1, (hfits.mem_own hg').1]
    · exact h.single s g g' ((hfits.mem_other hs).mp hg) ((hfits.mem_other hs).mp hg')
  · intro s g hg
    by_cases hs : s = c.change.store
    · subst hs
      exact (hfits.mem_own hg).2
    · exact h.named s g ((hfits.mem_other hs).mp hg)
  · intro y hy
    rw [show st.syncs = [] from h.syncs_nil hc] at hy
    exact absurd hy List.not_mem_nil
  · intro c' hc'
    obtain ⟨hmem, hne⟩ := hother c' hc'
    have hfits' := h.changes c' hmem
    refine ⟨?_, ?_, ?_, hfits'.only⟩
    · intro g hl
      simp only [Membership.put_group_of_ne _ _ hne]
      exact hfits'.settled g ((hfits.mem_other hne).mp hl)
    · simp only [Membership.put_group_of_ne _ _ hne]
      exact hfits'.old
    · intro hmoves g hl
      exact hfits'.dropped hmoves g ((hfits.mem_other hne).mp hl)

/-- A change keeps the links of the membership. -/
theorem LinkInv.mirror_commit {k : ℕ} {c : OpenChange} (h : LinkInv st)
    (hc : st.changes[k]? = some c) (hmirror : Mirror st.membership st.links) :
    Mirror (st.membership.put c.change.store c.change.group) (st.links \ c.dropped ∪ c.added) := by
  have hfits := h.changes c (List.mem_of_getElem? hc)
  intro s g
  by_cases hs : s = c.change.store
  · subst hs
    rw [Membership.put_group_self]
    constructor
    · intro hl
      obtain ⟨rfl, hne⟩ := hfits.mem_own hl
      exact ⟨rfl, hne⟩
    · rintro ⟨rfl, hne⟩
      by_cases hsame : c.old = c.change.group
      · -- the store stays in its group, and its link is not touched
        refine Finset.mem_union_left _ (Finset.mem_sdiff.mpr ⟨?_, fun hd => (hfits.only _ _ hd).2 rfl⟩)
        exact (hmirror _ _).mpr ⟨by rw [← hfits.old, hsame], hne⟩
      · refine Finset.mem_union_right _ ?_
        rw [OpenChange.added, if_neg (by tauto)]
        exact Finset.mem_singleton_self _
  · rw [Membership.put_group_of_ne _ _ hs, hfits.mem_other hs]
    exact hmirror s g

theorem LinkInv.abort {k : ℕ} {c : OpenChange} (h : LinkInv st) (hc : st.changes[k]? = some c) :
    LinkInv { st with changes := st.changes.eraseIdx k } where
  single := h.single
  named := h.named
  apart := .inl (h.syncs_nil hc)
  syncs := by
    intro y hy
    rw [show st.syncs = [] from h.syncs_nil hc] at hy
    exact absurd hy List.not_mem_nil
  changes := by
    intro c' hc'
    obtain ⟨hs, ho, hd, hon⟩ := h.changes c' (List.mem_of_mem_eraseIdx hc')
    exact ⟨hs, ho, hd, hon⟩
  distinct := h.distinct.sublist (List.eraseIdx_sublist _ _)

/-! ## Runs -/

/-- **Every step in turn keeps the invariant, and the links of the membership once they are there.** -/
theorem inv_step {e : LinkEvent} (h : LinkInv st) (hturn : InTurn st e) (hstep : step st e = some st') :
    LinkInv st' ∧ (Mirror st.membership st.links → Mirror st'.membership st'.links) ∧
      (∀ k, e = .close k → Mirror st'.membership st'.links) := by
  cases e with
  | listStores =>
    obtain rfl := Option.some.inj hstep
    exact ⟨h.listStores hturn, id, fun k hk => by cases hk⟩
  | listLinks k rows dels puts =>
    simp only [step] at hstep
    split at hstep
    · rename_i m hy
      split at hstep
      · rename_i hplan
        obtain rfl := Option.some.inj hstep
        exact ⟨h.listLinks hy hplan.1 hplan.2, id, fun k hk => by cases hk⟩
      · exact absurd hstep (by simp)
    · exact absurd hstep (by simp)
  | exec k =>
    simp only [step] at hstep
    split at hstep
    · rename_i d dels puts hy
      obtain rfl := Option.some.inj hstep
      refine ⟨h.execDel hy, fun hmirror => ?_, fun k hk => by cases hk⟩
      -- a wrong link is not there
      have hpending : Pending st.membership st.links (d :: dels) puts :=
        h.syncs _ (List.mem_of_getElem? hy)
      have hgone : d ∉ st.links := fun hd =>
        hpending.dels_wrong d.1 d.2 List.mem_cons_self ((hmirror d.1 d.2).mp hd).1
      simpa only [Finset.erase_eq_of_notMem hgone] using hmirror
    · rename_i p puts hy
      obtain rfl := Option.some.inj hstep
      refine ⟨h.execPut hy, fun hmirror => ?_, fun k hk => by cases hk⟩
      have hpending : Pending st.membership st.links [] (p :: puts) :=
        h.syncs _ (List.mem_of_getElem? hy)
      have hthere : p ∈ st.links :=
        (hmirror p.1 p.2).mpr (hpending.puts_right p.1 p.2 List.mem_cons_self)
      simpa only [Finset.insert_eq_of_mem hthere] using hmirror
    · exact absurd hstep (by simp)
  | close k =>
    simp only [step] at hstep
    split at hstep
    · rename_i hy
      obtain rfl := Option.some.inj hstep
      exact ⟨h.close hy, id, fun _ _ => h.mirror_of_done hy⟩
    · exact absurd hstep (by simp)
  | start c =>
    simp only [step] at hstep
    split at hstep
    · rename_i hstart
      obtain rfl := Option.some.inj hstep
      exact ⟨h.start hstart hturn.1 hturn.2, id, fun k hk => by cases hk⟩
    · exact absurd hstep (by simp)
  | commit k =>
    simp only [step] at hstep
    split at hstep
    · rename_i c hc
      obtain rfl := Option.some.inj hstep
      exact ⟨h.commit hc, h.mirror_commit hc, fun k hk => by cases hk⟩
    · exact absurd hstep (by simp)
  | abort k =>
    simp only [step] at hstep
    split at hstep
    · rename_i c hc
      obtain rfl := Option.some.inj hstep
      exact ⟨h.abort hc, id, fun k hk => by cases hk⟩
    · exact absurd hstep (by simp)

/-- A run in turn that starts with the links of the membership, or that completes a synchronisation, ends
with them. -/
theorem mirror_run {es : List LinkEvent} (h : LinkInv st) (hturn : Along step InTurn st es)
    (hrun : run step st es = some st')
    (hsynced : Mirror st.membership st.links ∨ ∃ k, .close k ∈ es) :
    Mirror st'.membership st'.links := by
  induction es generalizing st with
  | nil =>
    obtain rfl := Option.some.inj hrun
    exact hsynced.resolve_right fun ⟨k, hk⟩ => absurd hk List.not_mem_nil
  | cons e es ih =>
    obtain ⟨st₁, hstep, hrun⟩ := run_cons.mp hrun
    obtain ⟨hinv, hkeep, hclose⟩ := inv_step h hturn.1 hstep
    refine ih hinv (hturn.2 st₁ hstep) hrun ?_
    rcases hsynced with hmirror | ⟨k, hk⟩
    · exact .inl (hkeep hmirror)
    · rcases List.mem_cons.mp hk with heq | hk
      · exact .inl (hclose k heq.symm)
      · exact .inr ⟨k, hk⟩

/-- Nothing is in flight, and no store has more than one link. -/
structure AtRest (st : LinkState) : Prop where
  syncs : st.syncs = []
  changes : st.changes = []
  single : ∀ s g g', (s, g) ∈ st.links → (s, g') ∈ st.links → g = g'
  named : ∀ s g, (s, g) ∈ st.links → g ≠ ""

theorem AtRest.inv (h : AtRest st) : LinkInv st where
  single := h.single
  named := h.named
  apart := .inl h.syncs
  syncs := by
    intro y hy
    rw [h.syncs] at hy
    exact absurd hy List.not_mem_nil
  changes := by
    intro c hc
    rw [h.changes] at hc
    exact absurd hc List.not_mem_nil
  distinct := by
    rw [h.changes]
    exact List.Pairwise.nil

/-- A person reaches a store as an admin of a group through a link. -/
def ReachesThroughGroup (admins : String → String → Prop) (links : Finset Link) (person s : String) :
    Prop :=
  ∃ g, (s, g) ∈ links ∧ admins person g

/--
**One synchronisation leaves the links of the membership exactly if the links are correctable, and so does
every run in turn that starts with at most one link for each store, if it starts with the links of the
membership or completes a synchronisation. Then an admin reaches a store only through its group.**
-/
theorem links_follow_membership (m : Membership) (rows dels puts : List Link) :
    (IsPlan m rows dels puts → (Mirror m (execAll dels puts rows.toFinset) ↔ Correctable m rows)) ∧
    ∀ st st' es, AtRest st → Along step InTurn st es → run step st es = some st' →
      (Mirror st.membership st.links ∨ ∃ k, .close k ∈ es) →
      Mirror st'.membership st'.links ∧ ∀ admins person s,
        ReachesThroughGroup admins st'.links person s →
          admins person (st'.membership.group s) ∧ st'.membership.group s ≠ "" := by
  refine ⟨fun hplan => mirror_exec_iff hplan, ?_⟩
  intro st st' es hrest hturn hrun hsynced
  have hmirror := mirror_run hrest.inv hturn hrun hsynced
  refine ⟨hmirror, ?_⟩
  rintro admins person s ⟨g, hl, hadmin⟩
  obtain ⟨rfl, hne⟩ := (hmirror s g).mp hl
  exact ⟨hadmin, hne⟩

/-- The store `shop` in the group `g`. -/
def shopIn (g : String) : Membership :=
  Membership.put ⟨∅, fun _ => "", fun _ h => absurd rfl h⟩ "shop" g

/-- The store `shop` in the group `g`, linked to the group `l`. -/
def shopLinked (g l : String) : LinkState where
  membership := shopIn g
  links := {("shop", l)}
  syncs := []
  changes := []

theorem atRest_shopLinked {g l : String} (hl : l ≠ "") : AtRest (shopLinked g l) where
  syncs := rfl
  changes := rfl
  single := by
    intro s g' g'' hg' hg''
    rw [shopLinked, Finset.mem_singleton] at hg' hg''
    rw [(Prod.mk.inj hg').2, (Prod.mk.inj hg'').2]
  named := by
    intro s g' hg'
    rw [shopLinked, Finset.mem_singleton] at hg'
    rw [(Prod.mk.inj hg').2]
    exact hl

/-- A synchronisation that repairs a wrong link. -/
def repair : List LinkEvent :=
  [.listStores, .listLinks 0 [("shop", "ops")] [("shop", "ops")] [("shop", "sales")], .exec 0, .exec 0,
    .close 0]

theorem links_follow_membership_repair :
    ∃ st', run step (shopLinked "sales" "ops") repair = some st' ∧
      Mirror st'.membership st'.links := by
  obtain ⟨st', hrun⟩ : ∃ st', run step (shopLinked "sales" "ops") repair = some st' :=
    Option.isSome_iff_exists.mp (by decide +kernel)
  have hturn : Along step InTurn (shopLinked "sales" "ops") repair :=
    ⟨rfl, fun _ _ => ⟨trivial, fun _ _ => ⟨trivial, fun _ _ => ⟨trivial, fun _ _ => ⟨trivial,
      fun _ _ => trivial⟩⟩⟩⟩⟩
  have hlinks := links_follow_membership (shopIn "ops") [("shop", "sales")] [("shop", "sales")] [("shop", "ops")]
  exact ⟨st', hrun, (hlinks.2 _ _ _ (atRest_shopLinked (by decide)) hturn hrun
    (.inr ⟨0, by simp [repair]⟩)).1⟩

/-- A move commits after a synchronisation has read the membership and before it reads the links. -/
def overtaken : List LinkEvent :=
  [.listStores, .start (.move "shop" "ops"), .commit 0,
    .listLinks 0 [("shop", "ops")] [("shop", "ops")] [("shop", "sales")], .exec 0, .exec 0, .close 0]

/--
A synchronisation that is overtaken by a move links the store to the group that it has left, and a second
link to a left group that is not read last stays.
-/
theorem overtaken_sync_restores_left_group :
    (Mirror (shopIn "sales") (shopLinked "sales" "sales").links ∧
      ∃ st', run step (shopLinked "sales" "sales") overtaken = some st' ∧ st'.syncs = [] ∧
        st'.changes = [] ∧ ¬ Mirror st'.membership st'.links) ∧
    IsPlan (shopIn "ops") [("shop", "sales"), ("shop", "ops")] [] [] ∧
      ¬ Mirror (shopIn "ops") (execAll [] [] [("shop", "sales"), ("shop", "ops")].toFinset) := by
  refine ⟨⟨?_, ?_⟩, by decide +kernel, ?_⟩
  · intro s g
    rw [shopLinked, Finset.mem_singleton, Prod.mk.injEq]
    by_cases hs : s = "shop"
    · subst hs
      simp only [shopIn, Membership.put_group_self, true_and]
      constructor
      · rintro rfl
        exact ⟨rfl, by decide⟩
      · exact fun h => h.1.symm
    · have hnone : (shopIn "sales").group s = "" := Membership.put_group_of_ne _ _ hs
      rw [hnone]
      constructor
      · exact fun h => absurd h.1 hs
      · exact fun h => absurd h.1.symm h.2
  · have hrun : (run step (shopLinked "sales" "sales") overtaken).map (fun st' =>
        (st'.syncs.length, st'.changes.length, st'.links, st'.membership.group "shop")) =
          some (0, 0, {("shop", "sales")}, "ops") := by decide +kernel
    obtain ⟨st', hst', heq⟩ := Option.map_eq_some_iff.mp hrun
    simp only [Prod.mk.injEq, List.length_eq_zero_iff] at heq
    obtain ⟨hsyncs, hchanges, hlinks, hgroup⟩ := heq
    refine ⟨st', hst', hsyncs, hchanges, fun hmirror => ?_⟩
    have hleft := ((hmirror "shop" "sales").mp (by rw [hlinks]; exact Finset.mem_singleton_self _)).1
    rw [hgroup] at hleft
    exact absurd hleft (by decide)
  · intro hmirror
    have hleft := ((hmirror "shop" "sales").mp (by decide)).1
    exact absurd hleft (by decide)

end PgAuthz.Console
