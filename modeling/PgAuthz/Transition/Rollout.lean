import Mathlib.Data.Fintype.Defs
import Mathlib.Data.Fintype.Basic
import PgAuthz.Transition.Runs

/-!
# Rolling a configuration out

The members of a fleet run with configurations that are numbered in the order in which they are rolled
out. A rollout begins when all members have the configuration of the last one; then the members are
restarted one after the other, in any order, and take the new configuration. All the time the members
issue things under the configuration that they have.

Two members are at most one rollout apart. So what was issued at any time was issued under a configuration
that is at most one ahead of that of any member, and a member that copes with what the configurations up
to the next one issue copes with everything that has been issued.

## Main definitions

* `State`, `Event`, `step`: the fleet with what it has issued, and what happens
* `Abreast`: no member is more than one rollout behind

## Main results

* `Abreast.keeps`: the members stay abreast
* `issued_le`: what was issued is at most one rollout ahead of every member
-/

namespace Rollout

open Transition (run Keeps)

variable {I X : Type}

/-- The configuration that is being rolled out, that of each member, and what the members have issued, each
with the configuration that it was issued under. -/
structure State (I X : Type) where
  target : ℕ
  config : I → ℕ
  issued : List (ℕ × X)

/-- All members have the first configuration. -/
def State.init (I X : Type) : State I X := ⟨0, fun _ => 0, []⟩

/-- What happens: the next rollout begins, a member restarts, a member issues something. -/
inductive Event (I X : Type)
  | begin
  | restart (i : I)
  | issue (i : I) (x : X)

/-- A rollout begins when the last one is complete. -/
def step [Fintype I] [DecidableEq I] (s : State I X) : Event I X → Option (State I X)
  | .begin => if ∀ i, s.config i = s.target then some { s with target := s.target + 1 } else none
  | .restart i => some { s with config := fun j => if j = i then s.target else s.config j }
  | .issue i x => some { s with issued := (s.config i, x) :: s.issued }

/-- No member is more than one rollout behind, and nothing was issued under a configuration to come. -/
structure Abreast (s : State I X) : Prop where
  le : ∀ i, s.config i ≤ s.target
  near : ∀ i, s.target ≤ s.config i + 1
  issued : ∀ p ∈ s.issued, p.1 ≤ s.target

theorem Abreast.init : Abreast (State.init I X) := ⟨fun _ => le_refl 0, fun _ => Nat.zero_le 1, nofun⟩

section Fleet

variable [Fintype I] [DecidableEq I]

/-- **The members stay abreast.** -/
theorem Abreast.keeps : Keeps (step (I := I) (X := X)) Abreast := by
  intro s e s' h hstep
  cases e with
  | begin =>
    simp only [step] at hstep
    split at hstep
    · rename_i hall
      cases hstep
      exact ⟨fun i => (h.le i).trans (Nat.le_succ _), fun i => Nat.succ_le_succ (hall i).ge,
        fun p hp => (h.issued p hp).trans (Nat.le_succ _)⟩
    · cases hstep
  | restart i =>
    cases hstep
    refine ⟨fun j => ?_, fun j => ?_, h.issued⟩
    · show (if j = i then s.target else s.config j) ≤ s.target
      split
      · exact le_refl _
      · exact h.le j
    · show s.target ≤ (if j = i then s.target else s.config j) + 1
      split
      · exact Nat.le_succ _
      · exact h.near j
  | issue i x =>
    cases hstep
    refine ⟨h.le, h.near, fun p hp => ?_⟩
    rcases List.mem_cons.mp hp with rfl | hp
    · exact h.le i
    · exact h.issued p hp

/-- **What was issued is at most one rollout ahead of every member.** -/
theorem issued_le {s : State I X} {es : List (Event I X)} (hrun : run step (State.init I X) es = some s)
    {m : ℕ} {x : X} (hx : (m, x) ∈ s.issued) (i : I) : m ≤ s.config i + 1 := by
  have h : Abreast s := Abreast.keeps.run Abreast.init hrun
  exact (h.issued _ hx).trans (h.near i)

end Fleet

end Rollout
