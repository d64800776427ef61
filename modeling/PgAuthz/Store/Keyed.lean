import Mathlib.Data.List.Nodup

/-!
# Tables with a unique key

A table holds at most one row for each key. Writing a row replaces the row of its key, if there is
one. What a table holds after an operation is given by membership; the order of the rows carries no
meaning.

## Main definitions

* `Keyed key`: the tables whose rows are unique by `key`
* `find?`, `filter`, `upsert`: looking up, keeping and writing rows

## Main results

* `mem_upsert`: what a table holds after a row is written
* `eq_of_key`: two rows of a table with the same key are the same row
-/

/-- A table whose rows are unique by a key. -/
structure Keyed {α κ : Type} (key : α → κ) where
  rows : List α
  nodup : (rows.map key).Nodup

namespace Keyed

variable {α κ : Type} {key : α → κ}

instance [DecidableEq α] : DecidableEq (Keyed key) := fun T T' =>
  decidable_of_iff (T.rows = T'.rows) <| by
    cases T
    cases T'
    simp

instance : Membership α (Keyed key) := ⟨fun T a => a ∈ T.rows⟩

instance [DecidableEq α] (a : α) (T : Keyed key) : Decidable (a ∈ T) :=
  inferInstanceAs (Decidable (a ∈ T.rows))

theorem mem_rows {T : Keyed key} {a : α} : a ∈ T.rows ↔ a ∈ T := Iff.rfl

/-- The rows that meet a condition. -/
def filter (T : Keyed key) (p : α → Bool) : Keyed key where
  rows := T.rows.filter p
  nodup := T.nodup.sublist (List.filter_sublist.map key)

@[simp]
theorem mem_filter {T : Keyed key} {p : α → Bool} {a : α} :
    a ∈ T.filter p ↔ a ∈ T ∧ p a = true :=
  List.mem_filter

/-- **Rows are unique by their key.** -/
theorem eq_of_key {T : Keyed key} {a b : α} (ha : a ∈ T) (hb : b ∈ T) (h : key a = key b) : a = b :=
  List.inj_on_of_nodup_map T.nodup ha hb h

variable [DecidableEq κ]

/-- The row of a key. -/
def find? (T : Keyed key) (k : κ) : Option α := T.rows.find? fun a => key a = k

/-- The table has a row for a key. -/
def has (T : Keyed key) (k : κ) : Bool := (T.find? k).isSome

/-- The table with a row, in the place of the row of its key. -/
def upsert (T : Keyed key) (a : α) : Keyed key where
  rows := T.rows.filter (fun b => key b ≠ key a) ++ [a]
  nodup := by
    rw [List.map_append, List.nodup_append]
    refine ⟨T.nodup.sublist (List.filter_sublist.map key), List.nodup_singleton _, ?_⟩
    intro k hk k' hk' heq
    obtain ⟨b, hb, rfl⟩ := List.mem_map.mp hk
    rw [List.map_singleton, List.mem_singleton] at hk'
    have hne := (List.mem_filter.mp hb).2
    exact of_decide_eq_true hne (heq.trans hk')

@[simp]
theorem mem_upsert {T : Keyed key} {a b : α} :
    b ∈ T.upsert a ↔ (b ∈ T ∧ key b ≠ key a) ∨ b = a := by
  show b ∈ T.rows.filter (fun b => key b ≠ key a) ++ [a] ↔ _
  rw [List.mem_append, List.mem_filter, List.mem_singleton, decide_eq_true_eq, mem_rows]

theorem find?_eq_some {T : Keyed key} {k : κ} {a : α} :
    T.find? k = some a ↔ a ∈ T ∧ key a = k := by
  constructor
  · intro h
    exact ⟨List.mem_of_find?_eq_some h, by simpa using List.find?_some h⟩
  · rintro ⟨ha, rfl⟩
    cases h : T.find? (key a) with
    | none =>
      have hnone := List.find?_eq_none.mp h a ha
      simp at hnone
    | some b =>
      have hb : b ∈ T := List.mem_of_find?_eq_some h
      have hkey : key b = key a := by simpa using List.find?_some h
      rw [eq_of_key hb ha hkey]

/-- Writing a row that is there changes nothing. -/
theorem mem_upsert_of_mem {T : Keyed key} {a b : α} (ha : a ∈ T) : b ∈ T.upsert a ↔ b ∈ T := by
  rw [mem_upsert]
  constructor
  · rintro (hb | rfl)
    · exact hb.1
    · exact ha
  · intro hb
    by_cases hkey : key b = key a
    · exact .inr (eq_of_key hb ha hkey)
    · exact .inl ⟨hb, hkey⟩

/-- What a look-up finds depends on the rows alone. -/
theorem find?_congr {T T' : Keyed key} (h : ∀ a, a ∈ T' ↔ a ∈ T) (k : κ) : T'.find? k = T.find? k := by
  ext a
  rw [find?_eq_some, find?_eq_some, h]

theorem has_iff {T : Keyed key} {k : κ} : T.has k = true ↔ ∃ a ∈ T, key a = k := by
  rw [has, Option.isSome_iff_exists]
  simp only [find?_eq_some]

end Keyed
