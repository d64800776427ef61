import Mathlib.Data.List.Dedup
import Mathlib.Data.List.Sort
import Mathlib.Order.Basic

/-!
# Differences of keyed lists

Two lists of items are compared key by key: each list is read into a map from keys to items, in which a later
item takes the place of an earlier one with its key, and every key gives at most one change.

An item has an identity besides its key, by which a changed item is told from one that is gone. The comparison sees
only the last of the items under a key. It is still complete there in two cases: only one of the lists has items
under the key, or every item that is on one side only has changed, and the change shows in the last ones.

## Main definitions

* `diff`: the changes between two lists, in the order of the keys
* `Complete`: each missing or changed item has one change, with the right operation
* `Separated`: the condition on the items under each key

## Main results

* `complete_iff`: a comparison is complete exactly if the lists are separated
* `mem_iff_of_complete`: a complete comparison without changes is one of lists with the same items
* `separated_of_unique`: lists with one item a key, whose bodies tell them apart, are separated
-/

namespace PgAuthz

namespace Keyed

namespace Diff

variable {X I K B : Type} [DecidableEq B] [LinearOrder K]

/-- What happens to an item. -/
inductive Op
  | add
  | update
  | remove
deriving DecidableEq, Repr

/-- The items under a key. -/
def under (key : X → K) (items : List X) (k : K) : List X := items.filter fun x => key x = k

/-- The item of the map from keys to items. -/
def lastOf (key : X → K) (items : List X) (k : K) : Option X := (under key items k).getLast?

/-- The change under a key. -/
def opOf (body : X → B) : Option X → Option X → Option Op
  | some _, none => some .remove
  | none, some _ => some .add
  | some l, some r => if body l = body r then none else some .update
  | none, none => none

/-- The keys of both lists, in order. -/
def keysOf (key : X → K) (left right : List X) : List K :=
  ((left ++ right).map key).dedup.insertionSort (· ≤ ·)

/-- The changes from one list to another. -/
def diff (key : X → K) (body : X → B) (left right : List X) : List (K × Op) :=
  (keysOf key left right).filterMap fun k =>
    (opOf body (lastOf key left k) (lastOf key right k)).map fun op => (k, op)

/-- The operations of the changes under a key. -/
def opsAt (changes : List (K × Op)) (k : K) : List Op := (changes.filter fun c => c.1 = k).map Prod.snd

/-! ## The changes under a key -/

variable {key : X → K} {body : X → B} {left right : List X} {k : K}

theorem mem_under {items : List X} {x : X} : x ∈ under key items k ↔ x ∈ items ∧ key x = k := by
  simp [under]

theorem lastOf_eq_none {items : List X} : lastOf key items k = none ↔ under key items k = [] :=
  List.getLast?_eq_none_iff

theorem mem_keysOf : k ∈ keysOf key left right ↔ under key left k ≠ [] ∨ under key right k ≠ [] := by
  unfold keysOf
  rw [List.mem_insertionSort, List.mem_dedup, List.mem_map]
  simp only [List.mem_append]
  constructor
  · rintro ⟨x, hx | hx, rfl⟩
    · exact .inl (List.ne_nil_of_mem (mem_under.mpr ⟨hx, rfl⟩))
    · exact .inr (List.ne_nil_of_mem (mem_under.mpr ⟨hx, rfl⟩))
  · rintro (h | h)
    · obtain ⟨x, hx⟩ := List.exists_mem_of_ne_nil _ h
      exact ⟨x, .inl (mem_under.mp hx).1, (mem_under.mp hx).2⟩
    · obtain ⟨x, hx⟩ := List.exists_mem_of_ne_nil _ h
      exact ⟨x, .inr (mem_under.mp hx).1, (mem_under.mp hx).2⟩

/-- The changes under one of the keys that are run through. -/
theorem opsAt_filterMap {ks : List K} (hks : ks.Nodup) (f : K → Option Op) :
    opsAt (ks.filterMap fun k => (f k).map fun op => (k, op)) k = if k ∈ ks then (f k).toList else [] := by
  induction ks with
  | nil => rfl
  | cons k' ks ih =>
    obtain ⟨hnot, hks⟩ := List.nodup_cons.mp hks
    have hrest := ih hks
    unfold opsAt at hrest ⊢
    rw [List.filterMap_cons]
    by_cases hk : k' = k
    · subst hk
      rw [if_neg hnot] at hrest
      rw [if_pos List.mem_cons_self]
      cases f k' with
      | none => exact hrest
      | some op =>
        dsimp only [Option.map_some, Option.toList_some]
        rw [List.filter_cons_of_pos (by simp), List.map_cons, hrest]
    · have hmem : k ∈ k' :: ks ↔ k ∈ ks := by simp [Ne.symm hk]
      simp only [hmem]
      cases f k' with
      | none => exact hrest
      | some op =>
        dsimp only [Option.map_some]
        rw [List.filter_cons_of_neg (by simpa using hk), hrest]

/-- **Every key gives at most one change.** -/
theorem opsAt_diff : opsAt (diff key body left right) k =
    (opOf body (lastOf key left k) (lastOf key right k)).toList := by
  have hnodup : (keysOf key left right).Nodup :=
    (List.perm_insertionSort _ _).nodup_iff.mpr (List.nodup_dedup _)
  unfold diff
  rw [opsAt_filterMap hnodup]
  split
  · rfl
  · rename_i hk
    rw [mem_keysOf, not_or, not_not, not_not] at hk
    rw [lastOf_eq_none.mpr hk.1, lastOf_eq_none.mpr hk.2]
    rfl

theorem opsAt_diff_eq_remove : opsAt (diff key body left right) k = [.remove] ↔
    under key left k ≠ [] ∧ under key right k = [] := by
  rw [opsAt_diff, Ne, ← lastOf_eq_none, ← lastOf_eq_none]
  cases lastOf key left k with
  | none => cases lastOf key right k <;> simp [opOf]
  | some l =>
    cases lastOf key right k with
    | none => simp [opOf]
    | some r => by_cases hb : body l = body r <;> simp [opOf, hb]

theorem opsAt_diff_eq_add : opsAt (diff key body left right) k = [.add] ↔
    under key left k = [] ∧ under key right k ≠ [] := by
  rw [opsAt_diff, Ne, ← lastOf_eq_none, ← lastOf_eq_none]
  cases lastOf key left k with
  | none => cases lastOf key right k <;> simp [opOf]
  | some l =>
    cases lastOf key right k with
    | none => simp [opOf]
    | some r => by_cases hb : body l = body r <;> simp [opOf, hb]

/-- The last items under a key have different bodies. -/
def LastDiffer (key : X → K) (body : X → B) (left right : List X) (k : K) : Prop :=
  ∃ l ∈ lastOf key left k, ∃ r ∈ lastOf key right k, body l ≠ body r

theorem opsAt_diff_eq_update : opsAt (diff key body left right) k = [.update] ↔
    LastDiffer key body left right k := by
  unfold LastDiffer
  rw [opsAt_diff]
  cases lastOf key left k with
  | none => cases lastOf key right k <;> simp [opOf]
  | some l =>
    cases lastOf key right k with
    | none => simp [opOf]
    | some r => by_cases hb : body l = body r <;> simp [opOf, hb]

/-! ## Completeness -/

/-- An item has changed: each side has a version of it that the other side does not have. -/
def Changed (ident : X → I) (left right : List X) (x y : X) : Prop :=
  (x ∈ left ∧ x ∉ right) ∧ (y ∈ right ∧ y ∉ left) ∧ ident x = ident y

/-- **Each item that is missing on one side, or has changed, has exactly one operation** under its key, and it is the
right one. -/
structure Complete (ops : K → List Op) (key : X → K) (ident : X → I) (left right : List X) : Prop where
  removed : ∀ x ∈ left, x ∉ right → (∀ y, ¬ Changed ident left right x y) → ops (key x) = [.remove]
  added : ∀ y ∈ right, y ∉ left → (∀ x, ¬ Changed ident left right x y) → ops (key y) = [.add]
  updated : ∀ x y, Changed ident left right x y → ops (key x) = [.update]

/-- Under each key only one side has items, or each item that is on one side only has changed, and the last items
differ if any has. -/
def Separated (key : X → K) (body : X → B) (ident : X → I) (left right : List X) : Prop :=
  ∀ k, under key left k = [] ∨ under key right k = [] ∨
    (∀ x ∈ under key left k, x ∉ right → ∃ y, Changed ident left right x y) ∧
    (∀ y ∈ under key right k, y ∉ left → ∃ x, Changed ident left right x y) ∧
    ∀ x y, Changed ident left right x y → key x = k → LastDiffer key body left right k

variable {ident : X → I}

/-- **A comparison is complete exactly if the lists are separated.** -/
theorem complete_iff (hkey : ∀ x y, ident x = ident y → key x = key y) :
    Complete (opsAt (diff key body left right)) key ident left right ↔ Separated key body ident left right := by
  constructor
  · -- a key that both sides have would turn the op of a lone element into an update
    intro h k
    by_cases hleft : under key left k = []
    · exact .inl hleft
    by_cases hright : under key right k = []
    · exact .inr (.inl hright)
    refine .inr (.inr ⟨?_, ?_, ?_⟩)
    · intro x hx hmissing
      obtain ⟨hmem, rfl⟩ := mem_under.mp hx
      by_contra hsame
      exact hright (opsAt_diff_eq_remove.mp (h.removed x hmem hmissing (not_exists.mp hsame))).2
    · intro y hy hmissing
      obtain ⟨hmem, rfl⟩ := mem_under.mp hy
      by_contra hsame
      exact hleft (opsAt_diff_eq_add.mp (h.added y hmem hmissing (not_exists.mp hsame))).1
    · rintro x y hchanged rfl
      exact opsAt_diff_eq_update.mp (h.updated x y hchanged)
  · -- a key that only one side has gets the op of that side
    intro h
    refine ⟨?_, ?_, ?_⟩
    · intro x hx hmissing hsame
      have hmem : x ∈ under key left (key x) := mem_under.mpr ⟨hx, rfl⟩
      refine opsAt_diff_eq_remove.mpr ⟨List.ne_nil_of_mem hmem, ?_⟩
      rcases h (key x) with hnil | hnil | ⟨hleft, -, -⟩
      · exact absurd hnil (List.ne_nil_of_mem hmem)
      · exact hnil
      · obtain ⟨y, hy⟩ := hleft x hmem hmissing
        exact absurd hy (hsame y)
    · intro y hy hmissing hsame
      have hmem : y ∈ under key right (key y) := mem_under.mpr ⟨hy, rfl⟩
      refine opsAt_diff_eq_add.mpr ⟨?_, List.ne_nil_of_mem hmem⟩
      rcases h (key y) with hnil | hnil | ⟨-, hright, -⟩
      · exact hnil
      · exact absurd hnil (List.ne_nil_of_mem hmem)
      · obtain ⟨x, hx⟩ := hright y hmem hmissing
        exact absurd hx (hsame x)
    · intro x y hchanged
      have hleft : x ∈ under key left (key x) := mem_under.mpr ⟨hchanged.1.1, rfl⟩
      have hright : y ∈ under key right (key x) :=
        mem_under.mpr ⟨hchanged.2.1.1, (hkey x y hchanged.2.2).symm⟩
      rcases h (key x) with hnil | hnil | ⟨-, -, hlast⟩
      · exact absurd hnil (List.ne_nil_of_mem hleft)
      · exact absurd hnil (List.ne_nil_of_mem hright)
      · exact opsAt_diff_eq_update.mpr (hlast x y hchanged rfl)

omit [DecidableEq B] in
/-- Where a key says which item is meant, and a body tells the versions of an item apart, nothing is missed. -/
theorem separated_of_unique (hident : ∀ x y, key x = key y → ident x = ident y)
    (hleft : ∀ x ∈ left, ∀ y ∈ left, key x = key y → x = y)
    (hright : ∀ x ∈ right, ∀ y ∈ right, key x = key y → x = y)
    (hbody : ∀ x y, body x = body y → x = y) : Separated key body ident left right := by
  intro k
  by_cases hleftNil : under key left k = []
  · exact .inl hleftNil
  by_cases hrightNil : under key right k = []
  · exact .inr (.inl hrightNil)
  obtain ⟨l, hl⟩ := Option.ne_none_iff_exists'.mp (mt lastOf_eq_none.mp hleftNil)
  obtain ⟨r, hr⟩ := Option.ne_none_iff_exists'.mp (mt lastOf_eq_none.mp hrightNil)
  obtain ⟨hlmem, hlkey⟩ := mem_under.mp (List.mem_of_getLast? hl)
  obtain ⟨hrmem, hrkey⟩ := mem_under.mp (List.mem_of_getLast? hr)
  have honly : ∀ x ∈ left, key x = k → x = l := fun x hx hk => hleft x hx l hlmem (hk.trans hlkey.symm)
  have honly' : ∀ y ∈ right, key y = k → y = r := fun y hy hk => hright y hy r hrmem (hk.trans hrkey.symm)
  have hchanged : l ∉ right → r ∉ left → Changed ident left right l r := fun hnl hnr =>
    ⟨⟨hlmem, hnl⟩, ⟨hrmem, hnr⟩, hident l r (hlkey.trans hrkey.symm)⟩
  -- an item of one side only is not the item of the other side
  have hboth : l ∉ right ↔ r ∉ left := by
    constructor
    · exact fun hnl hnr => hnl (honly r hnr hrkey ▸ hrmem)
    · exact fun hnr hnl => hnr (honly' l hnl hlkey ▸ hlmem)
  refine .inr (.inr ⟨?_, ?_, ?_⟩)
  · intro x hx hmissing
    obtain ⟨hmem, hk⟩ := mem_under.mp hx
    obtain rfl := honly x hmem hk
    exact ⟨r, hchanged hmissing (hboth.mp hmissing)⟩
  · intro y hy hmissing
    obtain ⟨hmem, hk⟩ := mem_under.mp hy
    obtain rfl := honly' y hmem hk
    exact ⟨l, hchanged (hboth.mpr hmissing) hmissing⟩
  · intro x y h hk
    obtain rfl := honly x h.1.1 hk
    exact ⟨x, hl, r, hr, fun heq => h.1.2 (hbody _ _ heq ▸ hrmem)⟩

omit [LinearOrder K] in
/-- A complete comparison without changes is one of lists with the same items. -/
theorem mem_iff_of_complete {ops : K → List Op} (h : Complete ops key ident left right) (hnil : ∀ k, ops k = [])
    (x : X) : x ∈ left ↔ x ∈ right := by
  have hnone : ∀ k op, ops k ≠ [op] := by
    intro k op heq
    rw [hnil k] at heq
    cases heq
  constructor
  · intro hx
    by_contra hmissing
    by_cases hchanged : ∃ y, Changed ident left right x y
    · obtain ⟨y, hy⟩ := hchanged
      exact hnone _ _ (h.updated x y hy)
    · exact hnone _ _ (h.removed x hx hmissing (not_exists.mp hchanged))
  · intro hx
    by_contra hmissing
    by_cases hchanged : ∃ y, Changed ident left right y x
    · obtain ⟨y, hy⟩ := hchanged
      exact hnone _ _ (h.updated y x hy)
    · exact hnone _ _ (h.added x hx hmissing (not_exists.mp hchanged))

/-- A list does not differ from itself. -/
theorem diff_self : diff key body left left = [] := by
  unfold diff
  rw [List.filterMap_eq_nil_iff]
  intro k _
  cases lastOf key left k with
  | none => rfl
  | some l => simp [opOf]

end Diff

end Keyed

end PgAuthz
