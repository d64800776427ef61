import Mathlib.Data.List.Sort
import Mathlib.Tactic.Common

/-!
# Reading a log page by page

A log is read in pages of the rows above a cursor, and each page moves the cursor. The pages hold
every row above the first cursor exactly if no page moves the cursor past a row that it leaves for
the next one.

## Main definitions

* `pageAfter key n c rows`: the first `n` rows above the cursor `c`
* `pages`: what a number of polls receives
* `Covers next`: a page moves the cursor to or above each of its rows
* `Clear`: no page moves the cursor past a row it leaves

## Main results

* `received_all_iff`: the polls receive all rows above the first cursor exactly if `Clear`
* `filter_le_append_page`: with the key of its last row as the cursor, a page extends the rows up to
  the cursor
-/

namespace Feed

variable {α κ : Type} [LinearOrder κ]

/-- The first `n` rows above the cursor `c`. -/
def pageAfter (key : α → κ) (n : ℕ) (c : κ) (rows : List α) : List α :=
  (rows.filter fun a => c < key a).take n

/-- What `k` polls from the cursor `c` receive. The cursor after a page is `next` of the page; an
empty page leaves it. -/
def pages (key : α → κ) (next : List α → Option κ) (n : ℕ) (rows : List α) : ℕ → κ → List α
  | 0, _ => []
  | k + 1, c =>
    let page := pageAfter key n c rows
    page ++ pages key next n rows k ((next page).getD c)

/-- An empty page leaves the cursor, another page moves it to or above each of its rows. -/
structure Covers (key : α → κ) (next : List α → Option κ) : Prop where
  nil : next [] = none
  le : ∀ page, page ≠ [] → ∃ c, next page = some c ∧ ∀ a ∈ page, key a ≤ c

/-- No page of `rows` moves the cursor past a row that it leaves for the next one. -/
def Clear (key : α → κ) (next : List α → Option κ) (n : ℕ) (rows : List α) : Prop :=
  ∀ i, ∀ a ∈ rows.drop (n * (i + 1)), ∀ c, next ((rows.drop (n * i)).take n) = some c → c < key a

variable {key : α → κ} {next : List α → Option κ} {n : ℕ} {rows : List α}

theorem lt_of_mem_pageAfter {c : κ} {a : α} (ha : a ∈ pageAfter key n c rows) : c < key a := by
  simpa using (List.mem_filter.mp (List.mem_of_mem_take ha)).2

/-- The cursor never moves back. -/
theorem Covers.le_cursor (hnext : Covers key next) (n : ℕ) (rows : List α) (c : κ) :
    c ≤ (next (pageAfter key n c rows)).getD c := by
  by_cases hp : pageAfter key n c rows = []
  · rw [hp, hnext.nil, Option.getD_none]
  · obtain ⟨c', hc', hle⟩ := hnext.le _ hp
    obtain ⟨a, ha⟩ := List.exists_mem_of_ne_nil _ hp
    rw [hc', Option.getD_some]
    exact (lt_of_mem_pageAfter ha).le.trans (hle a ha)

/-- A poll receives rows above its first cursor only. -/
theorem lt_of_mem_pages (hnext : Covers key next) {k : ℕ} {c : κ} {a : α}
    (ha : a ∈ pages key next n rows k c) : c < key a := by
  induction k generalizing c with
  | zero => cases ha
  | succ k ih =>
    rcases List.mem_append.mp ha with ha | ha
    · exact lt_of_mem_pageAfter ha
    · exact (hnext.le_cursor n rows c).trans_lt (ih ha)

theorem pages_of_nil (hnext : Covers key next) {c : κ}
    (hrows : (rows.filter fun a => c < key a) = []) (k : ℕ) : pages key next n rows k c = [] := by
  induction k with
  | zero => rfl
  | succ k ih =>
    have hp : pageAfter key n c rows = [] := by rw [pageAfter, hrows, List.take_nil]
    rw [pages, hp, hnext.nil]
    exact ih

/-- After a page whose cursor passes no row it leaves, the rows left are above the cursor. -/
theorem filter_cursor (hnext : Covers key next) {c c' : κ} {left : List α}
    (hleft : (rows.filter fun a => c < key a).drop n = left)
    (hc' : next (pageAfter key n c rows) = some c') (hclear : ∀ a ∈ left, c' < key a) :
    (rows.filter fun a => c' < key a) = left := by
  have hp : pageAfter key n c rows ≠ [] := by
    intro hp
    rw [hp, hnext.nil] at hc'
    cases hc'
  have hcc' : c ≤ c' := by
    have := hnext.le_cursor n rows c
    rwa [hc', Option.getD_some] at this
  obtain ⟨c'', hc'', hle⟩ := hnext.le _ hp
  obtain rfl : c'' = c' := by
    rw [hc'] at hc''
    exact (Option.some.inj hc'').symm
  -- the rows above the new cursor are among those above the old one
  calc (rows.filter fun a => c'' < key a)
      = (rows.filter fun a => c < key a).filter fun a => c'' < key a := by
        rw [List.filter_filter]
        refine List.filter_congr fun a _ => ?_
        rw [Bool.eq_iff_iff]
        simp only [Bool.and_eq_true, decide_eq_true_eq]
        exact ⟨fun h => ⟨h, hcc'.trans_lt h⟩, And.left⟩
    _ = (pageAfter key n c rows ++ left).filter fun a => c'' < key a := by
        rw [← hleft, pageAfter, List.take_append_drop]
    _ = left := by
        rw [List.filter_append, List.filter_eq_nil_iff.mpr, List.nil_append,
          List.filter_eq_self.mpr]
        · simpa using hclear
        · simpa using hle

theorem Clear.drop {l : List α} (h : Clear key next n l) : Clear key next n (l.drop n) := by
  intro i a ha c hc
  rw [List.drop_drop] at ha hc
  refine h (i + 1) a ?_ c ?_
  · rwa [Nat.mul_succ, Nat.add_comm (n * (i + 1)) n]
  · rwa [Nat.mul_succ, Nat.add_comm (n * i) n]

/-- Where no row is passed over, the polls receive the rows in order. -/
theorem pages_eq_take (hnext : Covers key next) {l : List α} (hclear : Clear key next n l) {c : κ}
    (hl : (rows.filter fun a => c < key a) = l) (k : ℕ) :
    pages key next n rows k c = l.take (n * k) := by
  induction k generalizing c l with
  | zero => simp [pages]
  | succ k ih =>
    have hpage : pageAfter key n c rows = l.take n := by rw [pageAfter, hl]
    by_cases hp : pageAfter key n c rows = []
    · -- the page is empty: nothing is left, or the pages hold no row
      rw [pages, hp, hnext.nil, Option.getD_none, List.nil_append]
      have htake : l.take n = [] := by rw [← hpage, hp]
      rcases List.take_eq_nil_iff.mp htake with hn | hnil
      · rw [hn, Nat.zero_mul, List.take_zero]
        have : ∀ k, pages key next 0 rows k c = [] := by
          intro k
          induction k with
          | zero => rfl
          | succ k ih => rw [pages, pageAfter, List.take_zero, hnext.nil]; exact ih
        exact this k
      · rw [hnil, List.take_nil]
        exact pages_of_nil hnext (hl.trans hnil) k
    · obtain ⟨c', hc', -⟩ := hnext.le _ hp
      have hleft : (rows.filter fun a => c' < key a) = l.drop n := by
        refine filter_cursor hnext (by rw [hl]) hc' fun a ha => ?_
        refine hclear 0 a (by simpa using ha) c' ?_
        rw [← hc', hpage]
        simp
      rw [pages, hc', Option.getD_some, ih hclear.drop hleft, hpage, Nat.mul_succ, Nat.add_comm,
        List.take_add]

/-- Polls that receive all rows pass no row with their first page, and the polls after it receive
all rows left. -/
theorem received_all_step (hnext : Covers key next) {c c' : κ} {N : ℕ}
    (hN : ∀ k, N ≤ k → pages key next n rows k c = rows.filter fun a => c < key a)
    (hc' : next (pageAfter key n c rows) = some c') :
    (rows.filter fun a => c' < key a) = (rows.filter fun a => c < key a).drop n ∧
      ∀ k, N ≤ k → pages key next n rows k c' = rows.filter fun a => c' < key a := by
  have htail : ∀ k, N ≤ k →
      pages key next n rows k c' = (rows.filter fun a => c < key a).drop n := by
    intro k hk
    have hall := hN (k + 1) (Nat.le_succ_of_le hk)
    rw [pages, hc', Option.getD_some] at hall
    rw [← List.take_append_drop n (rows.filter fun a => c < key a)] at hall
    exact List.append_cancel_left hall
  have hleft : (rows.filter fun a => c' < key a) = (rows.filter fun a => c < key a).drop n := by
    refine filter_cursor hnext rfl hc' fun a ha => ?_
    rw [← htail N le_rfl] at ha
    exact lt_of_mem_pages hnext ha
  exact ⟨hleft, fun k hk => by rw [htail k hk, hleft]⟩

/-- **The polls receive all rows above the first cursor, in order and once, exactly if no page
moves the cursor past a row that it leaves.** -/
theorem received_all_iff (hnext : Covers key next) (hn : 0 < n) (c : κ) :
    (∃ N, ∀ k, N ≤ k → pages key next n rows k c = rows.filter fun a => c < key a) ↔
      Clear key next n (rows.filter fun a => c < key a) := by
  constructor
  · rintro ⟨N, hN⟩ i
    -- page by page, each from the cursor that the one before leaves
    induction i generalizing c with
    | zero =>
      intro a ha c' hc'
      rw [Nat.mul_zero, List.drop_zero] at hc'
      rw [Nat.zero_add, Nat.mul_one, ← (received_all_step hnext hN hc').1] at ha
      simpa using (List.mem_filter.mp ha).2
    | succ i ih =>
      intro a ha d hd
      have hp : pageAfter key n c rows ≠ [] := by
        intro hp
        rcases List.take_eq_nil_iff.mp hp with h0 | hnil
        · exact hn.ne' h0
        · simp [hnil] at ha
      obtain ⟨c', hc', -⟩ := hnext.le _ hp
      obtain ⟨hleft, hN'⟩ := received_all_step hnext hN hc'
      refine ih c' hN' a ?_ d ?_
      · rwa [hleft, List.drop_drop, Nat.add_comm, ← Nat.mul_succ]
      · rwa [hleft, List.drop_drop, Nat.add_comm, ← Nat.mul_succ]
  · intro hclear
    refine ⟨(rows.filter fun a => c < key a).length, fun k hk => ?_⟩
    rw [pages_eq_take hnext hclear rfl]
    exact List.take_of_length_le (Nat.le_trans hk (Nat.le_mul_of_pos_left k hn))

/-! ## Rows in strict order -/

theorem eq_of_mem_iff (key : α → κ) {l l' : List α} (hl : l.Pairwise fun a b => key a < key b)
    (hl' : l'.Pairwise fun a b => key a < key b) (h : ∀ a, a ∈ l ↔ a ∈ l') : l = l' := by
  have hperm : l.Perm l' := by
    rw [List.perm_ext_iff_of_nodup]
    · exact h
    · exact hl.imp fun hab heq => absurd hab (by simp [heq])
    · exact hl'.imp fun hab heq => absurd hab (by simp [heq])
  refine hperm.eq_of_pairwise (fun a b _ _ hab hba => ?_) hl hl'
  exact absurd (hab.trans hba) (lt_irrefl _)

/-- A row at or below a row of the page is in the page. -/
theorem mem_take_of_le {l : List α} (hl : l.Pairwise fun a b => key a < key b) {a b : α}
    (ha : a ∈ l.take n) (hb : b ∈ l) (hle : key b ≤ key a) : b ∈ l.take n := by
  rw [← List.take_append_drop n l] at hl hb
  rcases List.mem_append.mp hb with hb | hb
  · exact hb
  · exact absurd ((List.pairwise_append.mp hl).2.2 a ha b hb) (not_lt.mpr hle)

theorem le_getLast {l : List α} (hl : l.Pairwise fun a b => key a < key b) {a last : α}
    (ha : a ∈ l) (hlast : l.getLast? = some last) : key a ≤ key last := by
  obtain ⟨l', rfl⟩ := List.getLast?_eq_some_iff.mp hlast
  rcases List.mem_append.mp ha with ha | ha
  · exact ((List.pairwise_append.mp hl).2.2 a ha last (by simp)).le
  · rw [List.mem_singleton.mp ha]

/-- The cursor after a page is the key of its last row. -/
def lastKey (key : α → κ) (c : κ) (page : List α) : κ := page.getLast?.elim c key

theorem le_lastKey (c : κ) : c ≤ lastKey key c (pageAfter key n c rows) := by
  unfold lastKey
  cases hlast : (pageAfter key n c rows).getLast? with
  | none => exact le_rfl
  | some a => exact (lt_of_mem_pageAfter (List.mem_of_getLast? hlast)).le

/-- **A page extends the rows up to the cursor to the rows up to its last row**, where the rows
that the page may hold are an initial part of the log. -/
theorem filter_le_append_page (hrows : rows.Pairwise fun a b => key a < key b) {p : α → Bool}
    (hp : ∀ a b, key a ≤ key b → p b = true → p a = true) (n : ℕ) (c : κ) :
    (rows.filter fun a => key a ≤ c) ++ pageAfter key n c (rows.filter p) =
      rows.filter fun a => key a ≤ lastKey key c (pageAfter key n c (rows.filter p)) := by
  set page := pageAfter key n c (rows.filter p) with hpage
  have hpageSorted : page.Pairwise fun a b => key a < key b :=
    ((hrows.filter _).filter _).sublist (List.take_sublist _ _)
  have hmem : ∀ a ∈ page, a ∈ rows ∧ p a = true := fun a ha =>
    List.mem_filter.mp (List.mem_filter.mp (List.mem_of_mem_take ha)).1
  refine eq_of_mem_iff key ?_ (hrows.filter _) fun a => ?_
  · refine List.pairwise_append.mpr ⟨hrows.filter _, hpageSorted, fun a ha b hb => ?_⟩
    have hac : key a ≤ c := by simpa using (List.mem_filter.mp ha).2
    exact hac.trans_lt (lt_of_mem_pageAfter hb)
  · rw [List.mem_append, List.mem_filter, List.mem_filter, decide_eq_true_eq, decide_eq_true_eq]
    constructor
    · rintro (⟨ha, hac⟩ | ha)
      · exact ⟨ha, hac.trans (le_lastKey c)⟩
      · -- a row of the page is at or below the last one
        obtain ⟨last, hlast⟩ := Option.isSome_iff_exists.mp
          (List.getLast?_isSome.mpr (List.ne_nil_of_mem ha))
        rw [lastKey, hlast]
        exact ⟨(hmem a ha).1, le_getLast hpageSorted ha hlast⟩
    · rintro ⟨ha, hac⟩
      by_cases hc : key a ≤ c
      · exact .inl ⟨ha, hc⟩
      · -- a row between the cursor and the last row of the page may be in the page, so it is
        right
        cases hlast : page.getLast? with
        | none =>
          rw [lastKey, hlast] at hac
          exact absurd hac hc
        | some last =>
          rw [lastKey, hlast] at hac
          have hlastMem := List.mem_of_getLast? hlast
          refine mem_take_of_le ((hrows.filter _).filter _) hlastMem ?_ hac
          refine List.mem_filter.mpr ⟨List.mem_filter.mpr ⟨ha, ?_⟩, by simpa using hc⟩
          exact hp a last hac (hmem last hlastMem).2

end Feed
