import Mathlib.Data.List.Sort
import Mathlib.Order.Basic

/-!
# Tables under a unique key

A table of a database with a unique index is a finite set of rows no two of which agree on the key.  The
order in which the rows are stored says nothing; a reader that wants an order asks for that of the key.
So a table is kept here as the list of its rows in the order of the key, with the proof that the keys
increase: two tables with the same rows are then equal, and reading a table in order is reading its list.

The module has two halves.  The first is the table: writing a row in the place of the one under its key,
deleting the rows of a predicate, and what a run of writes leaves.  The second is the loop that stops at
the first refusal, `List.foldlM` over `Except`: when the state after every prefix of the loop is known, the
loop comes to its end exactly when no turn is refused, and then in the state known for the whole list.

## Main definitions

* `Table`: the rows in the order of their key
* `Table.upsert`, `Table.delete`, `Table.upsertAll`: the writes
* `refuseIf`: a refusal under a condition

## Main results

* `Table.ext`: a table is the set of its rows
* `Table.mem_upsertAll`: what a run of writes leaves
* `Table.rows_upsertAll`: writing every row of a list over a table with no other key leaves the list
* `foldlM_eq_ok_iff`: the loop that stops at the first refusal
-/

namespace PgAuthz

namespace Keyed

variable {κ ρ : Type} [LinearOrder κ]

/-! ## Tables -/

/-- The rows of a table, in the order of their key. -/
structure Table (key : ρ → κ) where
  rows : List ρ
  sorted : rows.Pairwise fun a b => key a < key b

namespace Table

variable {key : ρ → κ}

instance : Membership ρ (Table key) := ⟨fun t r => r ∈ t.rows⟩

instance : EmptyCollection (Table key) := ⟨⟨[], List.Pairwise.nil⟩⟩

instance [DecidableEq ρ] : DecidableEq (Table key) := fun s t =>
  decidable_of_iff (s.rows = t.rows) (by cases s; cases t; simp)

theorem mem_def {t : Table key} {r : ρ} : r ∈ t ↔ r ∈ t.rows := Iff.rfl

@[simp]
theorem not_mem_empty {r : ρ} : r ∉ (∅ : Table key) := List.not_mem_nil

theorem nodup_rows (t : Table key) : t.rows.Nodup :=
  t.sorted.imp fun h heq => absurd (heq ▸ h) (lt_irrefl _)

/-- Two lists in the order of a key that have the same rows are the same list. -/
theorem eq_of_sorted {l l' : List ρ} (hl : l.Pairwise fun a b => key a < key b)
    (hl' : l'.Pairwise fun a b => key a < key b) (h : ∀ r, r ∈ l ↔ r ∈ l') : l = l' := by
  have hperm : l.Perm l' := by
    refine (List.perm_ext_iff_of_nodup ?_ ?_).mpr h
    · exact hl.imp fun h heq => absurd (heq ▸ h) (lt_irrefl _)
    · exact hl'.imp fun h heq => absurd (heq ▸ h) (lt_irrefl _)
  exact hperm.eq_of_pairwise (fun a b _ _ hab hba => absurd hba (lt_asymm hab)) hl hl'

/-- **A table is the set of its rows.** -/
theorem ext {s t : Table key} (h : ∀ r, r ∈ s ↔ r ∈ t) : s = t := by
  have hrows := eq_of_sorted s.sorted t.sorted h
  cases s; cases t; simpa using hrows

theorem rows_eq_of_mem {t : Table key} {xs : List ρ} (hxs : xs.Pairwise fun a b => key a < key b)
    (h : ∀ r, r ∈ t ↔ r ∈ xs) : t.rows = xs :=
  eq_of_sorted t.sorted hxs h

/-- No two rows of a table have one key. -/
theorem eq_of_key {t : Table key} {r r' : ρ} (hr : r ∈ t) (hr' : r' ∈ t) (h : key r = key r') : r = r' := by
  have hne : t.rows.Pairwise fun a b => key a = key b → a = b :=
    t.sorted.imp fun hlt heq => absurd heq hlt.ne
  have hflip : t.rows.Pairwise (flip fun a b => key a = key b → a = b) :=
    t.sorted.imp fun hlt heq => absurd heq.symm hlt.ne
  exact hne.forall_of_forall_of_flip (fun _ _ _ => rfl) hflip hr hr' h

/-! ### Writing and deleting -/

/-- The list with a row in the place of the one under its key. -/
def place (key : ρ → κ) (r : ρ) : List ρ → List ρ
  | [] => [r]
  | a :: l => if key a < key r then a :: place key r l else if key r < key a then r :: a :: l else r :: l

theorem mem_of_mem_place {r x : ρ} : {l : List ρ} → x ∈ place key r l → x = r ∨ x ∈ l
  | [], h => .inl (List.mem_singleton.mp h)
  | a :: l, h => by
    rw [place] at h
    split at h
    · rcases List.mem_cons.mp h with rfl | h
      · exact .inr List.mem_cons_self
      · exact (mem_of_mem_place h).imp_right (List.mem_cons_of_mem _)
    · split at h
      · exact List.mem_cons.mp h
      · exact (List.mem_cons.mp h).imp_right (List.mem_cons_of_mem _)

theorem sorted_place (r : ρ) {l : List ρ} (hl : l.Pairwise fun a b => key a < key b) :
    (place key r l).Pairwise fun a b => key a < key b := by
  induction l with
  | nil => exact List.pairwise_singleton _ _
  | cons a l ih =>
    obtain ⟨ha, hl⟩ := List.pairwise_cons.mp hl
    rw [place]
    split
    next hlt =>
      refine List.pairwise_cons.mpr ⟨fun x hx => ?_, ih hl⟩
      rcases mem_of_mem_place hx with rfl | hx
      · exact hlt
      · exact ha x hx
    next hlt =>
      split
      next hgt =>
        refine List.pairwise_cons.mpr ⟨fun x hx => ?_, List.pairwise_cons.mpr ⟨ha, hl⟩⟩
        rcases List.mem_cons.mp hx with rfl | hx
        · exact hgt
        · exact hgt.trans (ha x hx)
      next hgt =>
        -- the row replaces `a`, whose key is its own
        have heq : key r = key a := le_antisymm (not_lt.mp hlt) (not_lt.mp hgt)
        exact List.pairwise_cons.mpr ⟨fun x hx => heq ▸ ha x hx, hl⟩

theorem mem_place {r x : ρ} {l : List ρ} (hl : l.Pairwise fun a b => key a < key b) :
    x ∈ place key r l ↔ x = r ∨ x ∈ l ∧ key x ≠ key r := by
  induction l with
  | nil => simp [place]
  | cons a l ih =>
    obtain ⟨ha, hl⟩ := List.pairwise_cons.mp hl
    rw [place]
    split
    next hlt =>
      rw [List.mem_cons, ih hl, List.mem_cons]
      constructor
      · rintro (rfl | rfl | ⟨hx, hne⟩)
        · exact .inr ⟨.inl rfl, hlt.ne⟩
        · exact .inl rfl
        · exact .inr ⟨.inr hx, hne⟩
      · rintro (rfl | ⟨rfl | hx, hne⟩)
        · exact .inr (.inl rfl)
        · exact .inl rfl
        · exact .inr (.inr ⟨hx, hne⟩)
    next hlt =>
      split
      next hgt =>
        rw [List.mem_cons]
        refine or_congr_right ⟨fun hx => ⟨hx, ?_⟩, And.left⟩
        rcases List.mem_cons.mp hx with rfl | hx
        · exact hgt.ne'
        · exact (hgt.trans (ha x hx)).ne'
      next hgt =>
        have heq : key r = key a := le_antisymm (not_lt.mp hlt) (not_lt.mp hgt)
        rw [List.mem_cons, List.mem_cons]
        refine or_congr_right ⟨fun hx => ⟨.inr hx, ?_⟩, ?_⟩
        · exact heq ▸ (ha x hx).ne'
        · rintro ⟨rfl | hx, hne⟩
          · exact absurd heq.symm hne
          · exact hx

/-- The row is written, in the place of the row under its key. -/
def upsert (t : Table key) (r : ρ) : Table key := ⟨place key r t.rows, sorted_place r t.sorted⟩

/-- The rows of a predicate are deleted. -/
def delete (t : Table key) (p : ρ → Prop) [DecidablePred p] : Table key :=
  ⟨t.rows.filter fun r => ¬ p r, t.sorted.filter _⟩

/-- The rows of a list are written in turn. -/
def upsertAll (t : Table key) (xs : List ρ) : Table key := xs.foldl upsert t

@[simp]
theorem mem_upsert {t : Table key} {r x : ρ} : x ∈ t.upsert r ↔ x = r ∨ x ∈ t ∧ key x ≠ key r :=
  mem_place t.sorted

@[simp]
theorem mem_delete {t : Table key} {p : ρ → Prop} [DecidablePred p] {r : ρ} : r ∈ t.delete p ↔ r ∈ t ∧ ¬ p r := by
  simp [delete, mem_def]

theorem mem_of_mem_delete {t : Table key} {p : ρ → Prop} [DecidablePred p] {r : ρ} (h : r ∈ t.delete p) : r ∈ t :=
  (mem_delete.mp h).1

theorem mem_upsert_self (t : Table key) (r : ρ) : r ∈ t.upsert r := mem_upsert.mpr (.inl rfl)

@[simp]
theorem upsert_upsert {t : Table key} {r r' : ρ} (h : key r = key r') : (t.upsert r).upsert r' = t.upsert r' := by
  refine ext fun x => ?_
  simp only [mem_upsert]
  constructor
  · rintro (rfl | ⟨rfl | ⟨hx, _⟩, hne⟩)
    · exact .inl rfl
    · exact absurd h hne
    · exact .inr ⟨hx, hne⟩
  · rintro (rfl | ⟨hx, hne⟩)
    · exact .inl rfl
    · exact .inr ⟨.inr ⟨hx, h ▸ hne⟩, hne⟩

theorem delete_eq_self {t : Table key} {p : ρ → Prop} [DecidablePred p] (h : ∀ r ∈ t, ¬ p r) : t.delete p = t :=
  ext fun _ => mem_delete.trans (and_iff_left_of_imp (h _))

theorem delete_delete {t : Table key} {p q r : ρ → Prop} [DecidablePred p] [DecidablePred q] [DecidablePred r]
    (h : ∀ x, r x ↔ p x ∨ q x) : (t.delete p).delete q = t.delete r := by
  refine ext fun x => ?_
  rw [mem_delete, mem_delete, mem_delete, h, not_or, and_assoc]

theorem nodup_keys (t : Table key) : (t.rows.map key).Nodup :=
  List.pairwise_map.mpr (t.sorted.imp fun h => h.ne)

/-- The row under a key, if there is one, is the only one that a search for the key finds. -/
theorem find?_eq_some_iff [DecidableEq κ] {t : Table key} {k : κ} {r : ρ} :
    t.rows.find? (fun x => key x = k) = some r ↔ r ∈ t ∧ key r = k := by
  constructor
  · intro h
    exact ⟨List.mem_of_find?_eq_some h, by simpa using List.find?_some h⟩
  · rintro ⟨hr, hk⟩
    cases hfind : t.rows.find? (fun x => key x = k) with
    | none => exact absurd hk (by simpa using List.find?_eq_none.mp hfind r hr)
    | some x =>
      have hx : key x = k := by simpa using List.find?_some hfind
      exact congrArg some (eq_of_key (List.mem_of_find?_eq_some hfind) hr (hx.trans hk.symm))

theorem find?_congr [DecidableEq κ] {t t' : Table key} {k : κ} (h : ∀ r, key r = k → (r ∈ t ↔ r ∈ t')) :
    t.rows.find? (fun x => key x = k) = t'.rows.find? fun x => key x = k := by
  refine Option.ext fun r => ?_
  rw [find?_eq_some_iff, find?_eq_some_iff]
  exact and_congr_left (h r)

/-- The row under a key after a write. -/
theorem find?_upsert [DecidableEq κ] (t : Table key) (r : ρ) (k : κ) :
    (t.upsert r).rows.find? (fun x => key x = k) =
      if key r = k then some r else t.rows.find? fun x => key x = k := by
  split
  · rename_i hk
    exact find?_eq_some_iff.mpr ⟨mem_upsert_self t r, hk⟩
  · rename_i hk
    refine find?_congr fun x hx => ?_
    rw [mem_upsert, hx]
    constructor
    · rintro (rfl | h)
      · exact absurd hx hk
      · exact h.1
    · exact fun h => .inr ⟨h, fun heq => hk heq.symm⟩

/-- The row under a key after the rows of some key were deleted. -/
theorem find?_delete [DecidableEq κ] (t : Table key) (d k : κ) :
    (t.delete fun x => key x = d).rows.find? (fun x => key x = k) =
      if d = k then none else t.rows.find? fun x => key x = k := by
  split
  · rename_i hk
    refine List.find?_eq_none.mpr fun x hx => ?_
    have := (mem_delete.mp (mem_def.mpr hx)).2
    simpa [hk] using this
  · rename_i hk
    refine find?_congr fun x hx => ?_
    rw [mem_delete, hx]
    exact and_iff_left fun h => hk h.symm

/-- The keys under which there is a row only grow by a write. -/
theorem exists_key_upsert {t : Table key} {r : ρ} {k : κ} :
    (∃ x ∈ t.upsert r, key x = k) ↔ key r = k ∨ ∃ x ∈ t, key x = k := by
  constructor
  · rintro ⟨x, hx, rfl⟩
    rcases mem_upsert.mp hx with rfl | ⟨hx, _⟩
    · exact .inl rfl
    · exact .inr ⟨x, hx, rfl⟩
  · rintro (rfl | ⟨x, hx, rfl⟩)
    · exact ⟨r, mem_upsert_self t r, rfl⟩
    · rcases eq_or_ne (key x) (key r) with heq | hne
      · exact ⟨r, mem_upsert_self t r, heq.symm⟩
      · exact ⟨x, mem_upsert.mpr (.inr ⟨hx, hne⟩), rfl⟩

@[simp]
theorem upsertAll_nil (t : Table key) : t.upsertAll [] = t := rfl

theorem upsertAll_concat (t : Table key) (xs : List ρ) (r : ρ) :
    t.upsertAll (xs ++ [r]) = (t.upsertAll xs).upsert r := by
  simp [upsertAll]

/-- **A run of writes under distinct keys** leaves the rows written and the rows under no key of theirs. -/
theorem mem_upsertAll {t : Table key} {xs : List ρ} (hxs : xs.Pairwise fun a b => key a ≠ key b) {x : ρ} :
    x ∈ t.upsertAll xs ↔ x ∈ xs ∨ x ∈ t ∧ ∀ y ∈ xs, key y ≠ key x := by
  induction xs generalizing t with
  | nil => simp
  | cons y xs ih =>
    obtain ⟨hy, hxs⟩ := List.pairwise_cons.mp hxs
    rw [show t.upsertAll (y :: xs) = (t.upsert y).upsertAll xs from rfl, ih hxs, mem_upsert, List.mem_cons,
      List.forall_mem_cons]
    constructor
    · rintro (hx | ⟨rfl | ⟨hx, hne⟩, hrest⟩)
      · exact .inl (.inr hx)
      · exact .inl (.inl rfl)
      · exact .inr ⟨hx, hne.symm, hrest⟩
    · rintro ((rfl | hx) | ⟨hx, hne, hrest⟩)
      · exact .inr ⟨.inl rfl, fun z hz => (hy z hz).symm⟩
      · exact .inl hx
      · exact .inr ⟨.inr ⟨hx, hne.symm⟩, hrest⟩

/-- A run of writes keeps every key. -/
theorem exists_key_upsertAll {t : Table key} {xs : List ρ} {k : κ} :
    (∃ x ∈ t.upsertAll xs, key x = k) ↔ (∃ x ∈ xs, key x = k) ∨ ∃ x ∈ t, key x = k := by
  induction xs generalizing t with
  | nil => simp
  | cons y xs ih =>
    rw [show t.upsertAll (y :: xs) = (t.upsert y).upsertAll xs from rfl, ih, exists_key_upsert,
      List.exists_mem_cons_iff, or_left_comm, or_assoc]

omit [LinearOrder κ] in
/-- In a list with distinct keys, nothing before a row has its key. -/
theorem ne_of_mem_init {l pre post : List ρ} {a : ρ} (hl : l.Pairwise fun a b => key a ≠ key b)
    (hsplit : l = pre ++ a :: post) : ∀ y ∈ pre, key y ≠ key a := by
  subst hsplit
  exact fun y hy => (List.pairwise_append.mp hl).2.2 y hy a List.mem_cons_self

theorem pairwise_init {R : ρ → ρ → Prop} {l pre post : List ρ} {a : ρ} (hl : l.Pairwise R)
    (hsplit : l = pre ++ a :: post) : pre.Pairwise R := by
  subst hsplit
  exact (List.pairwise_append.mp hl).1

/-- Before a row is written, a run of writes under other keys has not touched its key. -/
theorem mem_upsertAll_init {t : Table key} {l pre post : List ρ} {a x : ρ}
    (hl : l.Pairwise fun a b => key a ≠ key b) (hsplit : l = pre ++ a :: post) (hx : key x = key a) :
    x ∈ t.upsertAll pre ↔ x ∈ t := by
  have hne := ne_of_mem_init hl hsplit
  rw [mem_upsertAll (pairwise_init hl hsplit)]
  constructor
  · rintro (h | h)
    · exact absurd hx (hne x h)
    · exact h.1
  · exact fun h => .inr ⟨h, fun y hy => hx ▸ hne y hy⟩

/-- In a sorted list, what stands before a row is what has a smaller key. -/
theorem mem_prefix_iff {l pre post : List ρ} {a x : ρ} (hl : l.Pairwise fun a b => key a < key b)
    (hsplit : l = pre ++ a :: post) : x ∈ pre ↔ x ∈ l ∧ key x < key a := by
  subst hsplit
  obtain ⟨_, hright, hcross⟩ := List.pairwise_append.mp hl
  constructor
  · intro hx
    exact ⟨List.mem_append_left _ hx, hcross x hx a List.mem_cons_self⟩
  · rintro ⟨hx, hlt⟩
    rcases List.mem_append.mp hx with hx | hx
    · exact hx
    · rcases List.mem_cons.mp hx with rfl | hx
      · exact absurd hlt (lt_irrefl _)
      · exact absurd hlt (lt_asymm ((List.pairwise_cons.mp hright).1 x hx))

/-- **Writing every row of a list over a table with no other key leaves the list.** -/
theorem rows_upsertAll {t : Table key} {xs : List ρ} (hxs : xs.Pairwise fun a b => key a < key b)
    (ht : ∀ x ∈ t, ∃ y ∈ xs, key y = key x) : (t.upsertAll xs).rows = xs := by
  refine rows_eq_of_mem hxs fun x => ?_
  rw [mem_upsertAll (hxs.imp fun h => h.ne)]
  refine or_iff_left ?_
  rintro ⟨hx, hne⟩
  obtain ⟨y, hy, heq⟩ := ht x hx
  exact hne y hy heq

/-- Writing a list and deleting what is under no key of it leaves the list. -/
theorem rows_delete_upsertAll {t : Table key} {xs : List ρ} {p : ρ → Prop} [DecidablePred p]
    (hxs : xs.Pairwise fun a b => key a < key b) (hkeep : ∀ x ∈ xs, ¬ p x)
    (hdrop : ∀ x ∈ t, (∀ y ∈ xs, key y ≠ key x) → p x) : ((t.upsertAll xs).delete p).rows = xs := by
  refine rows_eq_of_mem hxs fun x => ?_
  rw [mem_delete, mem_upsertAll (hxs.imp fun h => h.ne)]
  constructor
  · rintro ⟨hx | ⟨hx, hne⟩, hp⟩
    · exact hx
    · exact absurd (hdrop x hx hne) hp
  · exact fun hx => ⟨.inl hx, hkeep x hx⟩

end Table

/-! ## Loops that stop at the first refusal -/

section Loops

variable {ε σ α β : Type}

/-- A refusal under a condition. -/
def refuseIf (p : Prop) [Decidable p] (e : ε) : Except ε Unit := if p then .error e else .ok ()

@[simp]
theorem refuseIf_eq_ok {p : Prop} [Decidable p] {e : ε} {u : Unit} : refuseIf p e = .ok u ↔ ¬ p := by
  unfold refuseIf
  split <;> simp_all

@[simp]
theorem pure_eq_ok {x y : α} : (pure x : Except ε α) = .ok y ↔ y = x := by
  simp [pure, Except.pure, eq_comm]

theorem bind_eq_ok_iff {x : Except ε α} {f : α → Except ε β} {b : β} :
    x >>= f = .ok b ↔ ∃ a, x = .ok a ∧ f a = .ok b := by
  cases x <;> simp [bind, Except.bind]

/-- A loop of checks passes when every check does. -/
theorem forM_eq_ok_iff {f : α → Except ε Unit} {xs : List α} {u : Unit} :
    xs.forM f = .ok u ↔ ∀ x ∈ xs, f x = .ok () := by
  induction xs with
  | nil => simp
  | cons x xs ih =>
    rw [show (x :: xs).forM f = (f x >>= fun _ => xs.forM f) from rfl, bind_eq_ok_iff, List.forall_mem_cons, ← ih]
    exact ⟨fun ⟨_, hx, hxs⟩ => ⟨hx, hxs⟩, fun ⟨hx, hxs⟩ => ⟨(), hx, hxs⟩⟩

/-- **The loop that stops at the first refusal.**  Let `st` be the state after each prefix of the list: if
the turn of `a` after `pre` succeeds exactly under `C pre a` and leads to the state of the longer prefix,
the loop comes to its end exactly when every turn satisfies its condition. -/
theorem foldlM_eq_ok_iff (f : σ → α → Except ε σ) (st : List α → σ) (C : List α → α → Prop) (xs : List α)
    (step : ∀ pre a post, xs = pre ++ a :: post → ∀ s', f (st pre) a = .ok s' ↔ C pre a ∧ s' = st (pre ++ [a]))
    (s' : σ) :
    xs.foldlM f (st []) = .ok s' ↔ (∀ pre a post, xs = pre ++ a :: post → C pre a) ∧ s' = st xs := by
  -- the induction is on what is still to come, behind any prefix
  have key : ∀ post pre, xs = pre ++ post → (post.foldlM f (st pre) = .ok s' ↔
      (∀ mid a rest, post = mid ++ a :: rest → C (pre ++ mid) a) ∧ s' = st xs) := by
    intro post
    induction post with
    | nil =>
      intro pre hxs
      rw [List.append_nil] at hxs
      subst hxs
      simp [pure, Except.pure, eq_comm]
    | cons a post ih =>
      intro pre hxs
      have hrest : xs = (pre ++ [a]) ++ post := by simpa using hxs
      simp only [List.foldlM_cons, bind_eq_ok_iff]
      constructor
      · rintro ⟨s, hs, hfold⟩
        obtain ⟨hC, rfl⟩ := (step pre a post hxs s).mp hs
        obtain ⟨hall, hs'⟩ := (ih (pre ++ [a]) hrest).mp hfold
        refine ⟨fun mid b rest hsplit => ?_, hs'⟩
        cases mid with
        | nil =>
          obtain ⟨rfl, rfl⟩ := List.cons_eq_cons.mp hsplit
          simpa using hC
        | cons c mid =>
          obtain ⟨rfl, rfl⟩ := List.cons_eq_cons.mp hsplit
          simpa using hall mid b rest rfl
      · rintro ⟨hall, hs'⟩
        refine ⟨st (pre ++ [a]), (step pre a post hxs _).mpr ⟨?_, rfl⟩, (ih _ hrest).mpr ⟨?_, hs'⟩⟩
        · simpa using hall [] a post rfl
        · intro mid b rest hsplit
          simpa using hall (a :: mid) b rest (by rw [hsplit]; rfl)
  simpa using key xs [] rfl

/-- The loop whose turns have conditions that say nothing of the turns before. -/
theorem foldlM_eq_ok_iff_forall (f : σ → α → Except ε σ) (st : List α → σ) (C : α → Prop) (xs : List α)
    (step : ∀ pre a post, xs = pre ++ a :: post → ∀ s', f (st pre) a = .ok s' ↔ C a ∧ s' = st (pre ++ [a]))
    (s' : σ) : xs.foldlM f (st []) = .ok s' ↔ (∀ a ∈ xs, C a) ∧ s' = st xs := by
  rw [foldlM_eq_ok_iff f st (fun _ a => C a) xs step]
  refine and_congr_left' ⟨fun h a ha => ?_, fun h pre a post hsplit => h a (by rw [hsplit]; simp)⟩
  obtain ⟨pre, post, hsplit⟩ := List.append_of_mem ha
  exact h pre a post hsplit

/-- The loop that writes a row at every turn. -/
theorem foldlM_upsert_eq_ok_iff {key : ρ → κ} (f : σ → α → Except ε σ) (put : Table key → σ) (row : α → ρ)
    (C : α → Prop) (xs : List α)
    (step : ∀ a ∈ xs, ∀ t s', f (put t) a = .ok s' ↔ C a ∧ s' = put (t.upsert (row a))) (t : Table key) (s' : σ) :
    xs.foldlM f (put t) = .ok s' ↔ (∀ a ∈ xs, C a) ∧ s' = put (t.upsertAll (xs.map row)) := by
  refine foldlM_eq_ok_iff_forall f (fun pre => put (t.upsertAll (pre.map row))) C xs (fun pre a post hsplit s' => ?_) s'
  rw [step a (by rw [hsplit]; simp), List.map_append, List.map_singleton, Table.upsertAll_concat]

/-- The loop that deletes rows at every turn. -/
theorem foldlM_delete_eq_ok_iff {key : ρ → κ} (f : σ → α → Except ε σ) (put : Table key → σ) (p : α → ρ → Prop)
    [∀ a, DecidablePred (p a)] (C : α → Prop) (xs : List α)
    (step : ∀ a ∈ xs, ∀ t s', f (put t) a = .ok s' ↔ C a ∧ s' = put (t.delete (p a))) (t : Table key) (s' : σ) :
    xs.foldlM f (put t) = .ok s' ↔ (∀ a ∈ xs, C a) ∧ s' = put (t.delete fun r => ∃ a ∈ xs, p a r) := by
  have hnil : t.delete (fun r => ∃ a ∈ ([] : List α), p a r) = t := Table.delete_eq_self (by simp)
  have hloop := foldlM_eq_ok_iff_forall f (fun pre => put (t.delete fun r => ∃ a ∈ pre, p a r)) C xs
    (fun pre a post hsplit s' => ?_) s'
  · rwa [hnil] at hloop
  · rw [step a (by rw [hsplit]; simp), Table.delete_delete (r := fun r => ∃ b ∈ pre ++ [a], p b r)]
    intro x
    simp [or_and_right, exists_or]

end Loops

end Keyed

end PgAuthz
