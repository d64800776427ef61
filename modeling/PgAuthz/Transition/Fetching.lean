import Mathlib.Data.List.Sort
import Mathlib.Data.PNat.Basic

/-!
# Fetching a list page by page

A client asks for a page, asks for the next one at a position it computes from the last row it got,
and stops at a page that is shorter than the limit. What it collects does not depend on how the
positions are written: if every page is the beginning of what is left, and the next position leaves
what the page did not hold, then the pages are the chunks of the list.

## Main definitions

* `Fetched`: the pages a client collects from a position on
* `chunks`: a list cut into full pages and a last short one

## Main results

* `fetched_iff_chunks`: the pages collected are the chunks of what was left at the start
* `filter_last_lt`: in increasing order, what follows the last row of a page is what is left
-/

namespace Fetching

variable {ε κ ρ : Type}

/-- **The pages collected** from the position `k` on: `fetch` reads a page, and `next` names the
position after the last row of a full page. -/
inductive Fetched (fetch : κ → Except ε (List ρ)) (next : κ → ρ → κ) (n : ℕ) :
    κ → List (List ρ) → Prop
  | last {k : κ} {page : List ρ} (hfetch : fetch k = .ok page) (hshort : page.length < n) :
      Fetched fetch next n k [page]
  | more {k : κ} {page : List ρ} {row : ρ} {pages : List (List ρ)} (hfetch : fetch k = .ok page)
      (hfull : n ≤ page.length) (hrow : page.getLast? = some row)
      (hrest : Fetched fetch next n (next k row) pages) : Fetched fetch next n k (page :: pages)

/-- A list in pages of `n` rows, with a last page that is shorter. -/
def chunks (n : ℕ+) (l : List ρ) : List (List ρ) :=
  if l.length < n then [l] else l.take n :: chunks n (l.drop n)
termination_by l.length
decreasing_by
  have hn := n.pos
  rw [List.length_drop]
  omega

/-- No row is lost or repeated by cutting. -/
theorem flatten_chunks (n : ℕ+) (l : List ρ) : (chunks n l).flatten = l := by
  fun_induction chunks n l with
  | case1 l h => simp
  | case2 l h ih => rw [List.flatten_cons, ih, List.take_append_drop]

section Fetched

variable {fetch : κ → Except ε (List ρ)} {next : κ → ρ → κ}

/-- The answers decide the pages. -/
theorem Fetched.unique {n : ℕ} {k : κ} {pages pages' : List (List ρ)}
    (h : Fetched fetch next n k pages) (h' : Fetched fetch next n k pages') : pages = pages' := by
  induction h generalizing pages' with
  | last hfetch hshort =>
    cases h' with
    | last hfetch' _ =>
      rw [hfetch] at hfetch'
      cases hfetch'
      rfl
    | more hfetch' hfull _ _ =>
      rw [hfetch] at hfetch'
      cases hfetch'
      omega
  | more hfetch hfull hrow _ ih =>
    cases h' with
    | last hfetch' hshort =>
      rw [hfetch] at hfetch'
      cases hfetch'
      omega
    | more hfetch' _ hrow' hrest' =>
      rw [hfetch] at hfetch'
      cases hfetch'
      rw [hrow] at hrow'
      cases hrow'
      rw [ih hrest']

/-- **Fetching is cutting.** Where every page is the beginning of what is left, and the position
after its last row leaves the rest, the pages collected are the chunks. -/
theorem fetched_iff_chunks {n : ℕ+} (left : κ → List ρ)
    (hfetch : ∀ k, fetch k = .ok ((left k).take n))
    (hnext : ∀ k row, n ≤ (left k).length → ((left k).take n).getLast? = some row →
      left (next k row) = (left k).drop n) (k : κ) {pages : List (List ρ)} :
    Fetched fetch next n k pages ↔ pages = chunks n (left k) := by
  have hchunks : ∀ l k, left k = l → Fetched fetch next n k (chunks n l) := by
    intro l
    -- on the length of what is left, as the cutting goes
    fun_induction chunks n l with
    | case1 l hlt =>
      intro k hk
      refine .last ?_ hlt
      rw [hfetch, hk, List.take_of_length_le (by omega)]
    | case2 l hle ih =>
      intro k hk
      have hlen : (l.take n).length = n := by
        rw [List.length_take]
        omega
      obtain ⟨row, hrow⟩ : ∃ row, (l.take n).getLast? = some row := by
        cases hlast : (l.take n).getLast? with
        | some row => exact ⟨row, rfl⟩
        | none =>
          have hn := n.pos
          rw [List.getLast?_eq_none_iff.mp hlast, List.length_nil] at hlen
          omega
      refine .more (by rw [hfetch, hk]) (by omega) hrow (ih _ ?_)
      rw [← hk] at hrow ⊢
      apply hnext k row _ hrow
      rw [hk]
      omega
  constructor
  · intro h
    exact h.unique (hchunks _ k rfl)
  · rintro rfl
    exact hchunks _ k rfl

end Fetched

/-! ## Positions after a row -/

section Order

variable {α : Type} [LinearOrder α]

theorem le_last_of_mem {l : List α} {a b : α} (hl : l.Pairwise (· < ·)) (ha : l.getLast? = some a)
    (hb : b ∈ l) : b ≤ a := by
  obtain ⟨init, rfl⟩ := List.getLast?_eq_some_iff.mp ha
  rcases List.mem_append.mp hb with hb | hb
  · exact le_of_lt ((List.pairwise_append.mp hl).2.2 b hb a List.mem_cons_self)
  · exact le_of_eq (List.mem_singleton.mp hb)

/-- In increasing order the rows after the last one of a page are those the page does not hold. -/
theorem filter_last_lt {l : List α} {a : α} {n : ℕ} (hl : l.Pairwise (· < ·))
    (ha : (l.take n).getLast? = some a) : (l.filter fun x => decide (a < x)) = l.drop n := by
  rw [← List.take_append_drop n l, List.pairwise_append] at hl
  obtain ⟨htake, -, hcross⟩ := hl
  have hmem : a ∈ l.take n := List.mem_of_getLast? ha
  conv_lhs => rw [← List.take_append_drop n l, List.filter_append]
  rw [List.filter_eq_nil_iff.mpr, List.filter_eq_self.mpr, List.nil_append]
  · intro x hx
    exact decide_eq_true (hcross a hmem x hx)
  · intro x hx
    have hle := le_last_of_mem htake ha hx
    simpa using hle

end Order

end Fetching
