import Mathlib.Data.Finset.Card
import Mathlib.Data.List.Dedup
import Mathlib.Logic.Relation

/-!
# Recursive queries

A recursive query with `UNION` starts from its seed rows, and in each round joins the rows of the
last round with its recursive term, keeping the rows that are new. On finitely many rows it ends
with the rows reachable from the seeds.

## Main definitions

* `recursiveUnion expand n seen work`: `n` rounds, from the rows `seen` and the last round `work`

## Main results

* `mem_recursiveUnion`: enough rounds find the rows reachable from the seeds
-/

namespace Resolution

open Relation (ReflTransGen)

variable {α : Type} [DecidableEq α] {expand : α → List α}

/-- The rounds of a recursive query: the rows that the last round leads to and that are not among
the rows so far form the next round. -/
def recursiveUnion (expand : α → List α) : ℕ → List α → List α → List α
  | 0, seen, _ => seen
  | n + 1, seen, work =>
    let new := ((work.flatMap expand).filter fun a => a ∉ seen).dedup
    recursiveUnion expand n (seen ++ new) new

theorem mem_new {seen work : List α} {b : α} :
    b ∈ ((work.flatMap expand).filter fun a => a ∉ seen).dedup ↔
      (∃ a ∈ work, b ∈ expand a) ∧ b ∉ seen := by
  simp [List.mem_filter]

/-- Rows found are rows reachable. -/
theorem reachable_of_mem {seeds : List α} {n : ℕ} {seen work : List α} {x : α}
    (hseen : ∀ a ∈ seen, ∃ s ∈ seeds, ReflTransGen (fun a b => b ∈ expand a) s a)
    (hwork : ∀ a ∈ work, a ∈ seen) (hx : x ∈ recursiveUnion expand n seen work) :
    ∃ s ∈ seeds, ReflTransGen (fun a b => b ∈ expand a) s x := by
  induction n generalizing seen work with
  | zero => exact hseen x hx
  | succ n ih =>
    refine ih ?_ ?_ hx
    · intro b hb
      rcases List.mem_append.mp hb with hb | hb
      · exact hseen b hb
      · obtain ⟨⟨a, ha, hab⟩, -⟩ := mem_new.mp hb
        obtain ⟨s, hs, hreach⟩ := hseen a (hwork a ha)
        exact ⟨s, hs, hreach.tail hab⟩
    · exact fun b hb => List.mem_append_right _ hb

theorem recursiveUnion_nil (n : ℕ) (seen : List α) : recursiveUnion expand n seen [] = seen := by
  induction n generalizing seen with
  | zero => rfl
  | succ n ih => simpa [recursiveUnion] using ih seen

theorem subset_recursiveUnion (n : ℕ) (seen work : List α) :
    seen ⊆ recursiveUnion expand n seen work := by
  induction n generalizing seen work with
  | zero => exact List.Subset.refl seen
  | succ n ih => exact List.Subset.trans (List.subset_append_left _ _) (ih _ _)

/-- Enough rounds leave a set of rows that leads to no new row. -/
theorem recursiveUnion_closed {U : Finset α} (hU : ∀ a ∈ U, ∀ b ∈ expand a, b ∈ U) {n : ℕ}
    {seen work : List α} (hnodup : seen.Nodup) (hseenU : ∀ a ∈ seen, a ∈ U)
    (hwork : ∀ a ∈ work, a ∈ seen)
    (hdone : ∀ a ∈ seen, a ∉ work → ∀ b ∈ expand a, b ∈ seen)
    (hn : U.card ≤ n + seen.length) {a b : α} (ha : a ∈ recursiveUnion expand n seen work)
    (hb : b ∈ expand a) : b ∈ recursiveUnion expand n seen work := by
  induction n generalizing seen work with
  | zero =>
    -- all of the finite universe has been seen
    have hall : seen.toFinset = U := by
      refine Finset.eq_of_subset_of_card_le (fun a ha => hseenU a (List.mem_toFinset.mp ha)) ?_
      rw [List.toFinset_card_of_nodup hnodup]
      omega
    have hmem : ∀ a, a ∈ seen ↔ a ∈ U := fun a => by rw [← hall, List.mem_toFinset]
    exact (hmem b).mpr (hU a ((hmem a).mp ha) b hb)
  | succ n ih =>
    rw [recursiveUnion] at ha ⊢
    set new := ((work.flatMap expand).filter fun a => a ∉ seen).dedup with hnew
    have hnextSeen : ∀ a ∈ seen, ∀ b ∈ expand a, b ∈ seen ++ new := by
      intro a ha b hb
      by_cases hbs : b ∈ seen
      · exact List.mem_append_left _ hbs
      · by_cases haw : a ∈ work
        · exact List.mem_append_right _ (mem_new.mpr ⟨⟨a, haw, hb⟩, hbs⟩)
        · exact absurd (hdone a ha haw b hb) hbs
    by_cases hnil : new = []
    · rw [hnil, recursiveUnion_nil, List.append_nil] at ha ⊢
      rw [hnil, List.append_nil] at hnextSeen
      exact hnextSeen a ha b hb
    · have hlen : seen.length < (seen ++ new).length := by
        have hpos := List.length_pos_iff.mpr hnil
        rw [List.length_append]
        omega
      refine ih ?_ ?_ (fun b hb => List.mem_append_right _ hb) ?_ (by omega) ha
      · refine List.Nodup.append hnodup (List.nodup_dedup _) fun b hbs hbn => ?_
        exact (mem_new.mp hbn).2 hbs
      · intro b hb
        rcases List.mem_append.mp hb with hb | hb
        · exact hseenU b hb
        · obtain ⟨⟨a, ha, hab⟩, -⟩ := mem_new.mp hb
          exact hU a (hseenU a (hwork a ha)) b hab
      · intro a ha hanew
        rcases List.mem_append.mp ha with ha | ha
        · exact hnextSeen a ha
        · exact absurd ha hanew

/-- **Enough rounds find the rows reachable from the seeds.** -/
theorem mem_recursiveUnion {U : Finset α} (hU : ∀ a ∈ U, ∀ b ∈ expand a, b ∈ U)
    {seeds : List α} (hseeds : ∀ s ∈ seeds, s ∈ U) {n : ℕ} (hn : U.card ≤ n) {x : α} :
    x ∈ recursiveUnion expand n seeds.dedup seeds.dedup ↔
      ∃ s ∈ seeds, ReflTransGen (fun a b => b ∈ expand a) s x := by
  constructor
  · exact reachable_of_mem (fun a ha => ⟨a, List.mem_dedup.mp ha, .refl⟩) fun a ha => ha
  · rintro ⟨s, hs, hreach⟩
    induction hreach with
    | refl => exact subset_recursiveUnion _ _ _ (List.mem_dedup.mpr hs)
    | tail _ hstep ih =>
      refine recursiveUnion_closed hU (List.nodup_dedup _) ?_ (fun a ha => ha) ?_ (by omega) ih hstep
      · exact fun a ha => hseeds a (List.mem_dedup.mp ha)
      · exact fun a ha hna => absurd ha hna

end Resolution
