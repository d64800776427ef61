import Mathlib.Data.List.Basic
import Mathlib.Tactic.Common

/-!
# Reading with tokens

A reader asks for a page, and passes the token of each answer back until an answer comes without one.
What it reads is the concatenation of the pages.

## Main definitions

* `Ends respond k t l`: the requests from the token `t` on are answered, end, and read `l`

## Main results

* `ends_of_segments`: pages that are the segments of a list read the list
* `not_ends_of_loop`: answers that always lead to another request do not end
-/

namespace Feed

variable {α β τ : Type}

/--
The requests from the token `t` on, the first of them the `k`-th request of the reader, are answered and
end, and their pages make up `l`.
-/
inductive Ends (respond : ℕ → τ → Option (List α × Option τ)) : ℕ → τ → List α → Prop
  | last {k : ℕ} {t : τ} {page : List α} (h : respond k t = some (page, none)) : Ends respond k t page
  | more {k : ℕ} {t t' : τ} {page rest : List α} (h : respond k t = some (page, some t'))
      (hrest : Ends respond (k + 1) t' rest) : Ends respond k t (page ++ rest)

variable {respond : ℕ → τ → Option (List α × Option τ)}

/-- There is one way in which the requests can end. -/
theorem Ends.unique {k : ℕ} {t : τ} {l l' : List α} (h : Ends respond k t l)
    (h' : Ends respond k t l') : l = l' := by
  induction h generalizing l' with
  | last h =>
    cases h' with
    | last h' =>
      rw [h, Option.some.injEq, Prod.mk.injEq] at h'
      exact h'.1
    | more h' _ => simp [h] at h'
  | more h _ ih =>
    cases h' with
    | last h' => simp [h] at h'
    | more h' hrest =>
      simp only [h, Option.some.injEq, Prod.mk.injEq] at h'
      obtain ⟨rfl, rfl⟩ := h'
      rw [ih hrest]

/-- A request that is not answered ends nothing. -/
theorem not_ends_of_none {k : ℕ} {t : τ} (h : respond k t = none) (l : List α) :
    ¬ Ends respond k t l := by
  intro hl
  cases hl with
  | last h' => simp [h] at h'
  | more h' _ => simp [h] at h'

/-- An answer without a token is all that is read. -/
theorem ends_iff_of_last {k : ℕ} {t : τ} {page l : List α} (h : respond k t = some (page, none)) :
    Ends respond k t l ↔ page = l :=
  ⟨fun hl => (Ends.last h).unique hl, fun hl => hl ▸ .last h⟩

/--
The token `t` is before the rows `rest`. If such a token always gets the view of the next `n` rows, with
a token before the others if there are any, then the requests read the view of all rows.
-/
theorem ends_of_segments (Before : List β → τ → Prop) {n : ℕ} (hn : 0 < n)
    {view : List β → List α} (happend : ∀ l l', view (l ++ l') = view l ++ view l')
    (hrespond : ∀ k rest t, Before rest t →
      if n < rest.length then
        ∃ t', respond k t = some (view (rest.take n), some t') ∧ Before (rest.drop n) t'
      else respond k t = some (view rest, none))
    {k : ℕ} {rest : List β} {t : τ} (ht : Before rest t) : Ends respond k t (view rest) := by
  induction hlen : rest.length using Nat.strongRecOn generalizing k rest t with
  | _ m ih =>
    have h := hrespond k rest t ht
    split at h
    · rename_i hlt
      obtain ⟨t', hpage, hafter⟩ := h
      have hshort : (rest.drop n).length < m := by
        rw [List.length_drop]
        omega
      rw [← List.take_append_drop n rest, happend]
      exact .more hpage (ih _ hshort hafter rfl)
    · exact .last h

/-- Tokens that lead to each other for ever do not end. -/
theorem not_ends_of_loop (Loop : τ → Prop)
    (hloop : ∀ k t, Loop t → ∃ page t', respond k t = some (page, some t') ∧ Loop t')
    {k : ℕ} {t : τ} (ht : Loop t) (l : List α) : ¬ Ends respond k t l := by
  intro h
  induction h with
  | @last k t _ h =>
    obtain ⟨page, t', h', -⟩ := hloop k t ht
    simp [h] at h'
  | @more k t _ _ _ h _ ih =>
    obtain ⟨page, t', h', ht'⟩ := hloop k t ht
    simp only [h, Option.some.injEq, Prod.mk.injEq] at h'
    exact ih (h'.2 ▸ ht')

end Feed
