import Mathlib

/-!
# Queries in a transaction

A transaction in which a statement has failed rejects every further statement, until it goes back to a savepoint. A
driver reports the error of a query either at once or behind the rows that it delivers: a caller who reads the rows
and does not ask for the error behind them takes a query that failed for one that found less.

A caller who runs through a list of queries in one transaction carries the state of the transaction along. Each of
them is answered as it would be on its own if no earlier one has failed, and is rejected otherwise.

## Main definitions

* `Rows`, `Server`, `Server.query`: what a query gives, in a transaction that has failed and in one that has not
* `sweep`: a loop that carries a state along

## Main results

* `sweep_map`: a loop whose turns do not depend on the state
* `sweep_map_of_sorted`: a loop whose turns depend on whether an earlier one has failed
-/

namespace Savepoints

/-! ## Queries -/

section Queries

variable {Q R E : Type}

/-- What a query gives: an error at once, or rows and then perhaps an error. -/
inductive Rows (R E : Type)
  | refused (error : E)
  | delivered (rows : List R) (error : Option E)
deriving DecidableEq, Repr

/-- The error of a query, wherever it is reported. -/
def Rows.error : Rows R E → Option E
  | refused e => some e
  | delivered _ e => e

/-- What a caller reads who does not ask for the error behind the rows. -/
def Rows.read : Rows R E → Except E (List R)
  | refused e => .error e
  | delivered rows _ => .ok rows

/-- A database, and how its driver reports that a query is rejected. -/
structure Server (Q R E : Type) where
  answer : Q → Rows R E
  rejection : Q → Rows R E
  rejects : ∀ q, (∃ e, rejection q = .refused e) ∨ ∃ e, rejection q = .delivered [] (some e)

/-- A query in a transaction, which may have failed, and whether it has failed after that. -/
def Server.query (server : Server Q R E) (failed : Bool) (q : Q) : Rows R E × Bool :=
  if failed then (server.rejection q, true) else (server.answer q, (server.answer q).error.isSome)

theorem Server.query_failed (server : Server Q R E) (failed : Bool) (q : Q) :
    (server.query failed q).2 = (failed || (server.answer q).error.isSome) := by
  cases failed <;> rfl

end Queries

/-! ## Loops that carry a state -/

section Loops

variable {X S A B : Type}

/-- Runs through a list and carries a state along. -/
def sweep (step : X → S → A × S) : List X → S → List A × S
  | [], s => ([], s)
  | x :: xs, s => ((step x s).1 :: (sweep step xs (step x s).2).1, (sweep step xs (step x s).2).2)

variable {step : X → S → A × S} {Inv : S → Prop} {observe : A → B}

/-- A loop keeps what each turn keeps. -/
theorem sweep_keeps (hstep : ∀ x s, Inv s → Inv (step x s).2) {xs : List X} {s : S} (hs : Inv s) :
    Inv (sweep step xs s).2 := by
  induction xs generalizing s with
  | nil => exact hs
  | cons x xs ih => exact ih (hstep x s hs)

/-- **A loop whose turns show the same in every state** that they keep is a map. -/
theorem sweep_map {f : X → B} (hobserve : ∀ x s, Inv s → observe (step x s).1 = f x)
    (hstep : ∀ x s, Inv s → Inv (step x s).2) {xs : List X} {s : S} (hs : Inv s) :
    (sweep step xs s).1.map observe = xs.map f := by
  induction xs generalizing s with
  | nil => rfl
  | cons x xs ih =>
    rw [sweep, List.map_cons, List.map_cons, hobserve x s hs, ih (hstep x s hs)]

variable {K : Type} [LinearOrder K] {key : X → K} {failed : S → Bool} {raises : X → Bool}

/-- Whether an item before this one raises. -/
def raisedBefore (key : X → K) (raises : X → Bool) (xs : List X) (y : X) : Bool :=
  xs.any fun x => key x < key y && raises x

theorem raisedBefore_iff {xs : List X} {y : X} :
    raisedBefore key raises xs y = true ↔ ∃ x ∈ xs, key x < key y ∧ raises x = true := by
  simp [raisedBefore]

/-- Nothing comes before the first item. -/
theorem raisedBefore_first {x : X} {xs : List X} (hx : ∀ y ∈ xs, key x < key y) :
    raisedBefore key raises (x :: xs) x = false := by
  rw [Bool.eq_false_iff, Ne, raisedBefore_iff]
  rintro ⟨y, hy, hlt, -⟩
  rcases List.mem_cons.mp hy with rfl | hy
  · exact lt_irrefl _ hlt
  · exact lt_asymm hlt (hx y hy)

/-- **A loop in the order of a key whose turns show whether an earlier one has failed.** -/
theorem sweep_map_of_sorted {f : X → Bool → B} (hobserve : ∀ x s, observe (step x s).1 = f x (failed s))
    (hstep : ∀ x s, failed (step x s).2 = (failed s || raises x)) {xs : List X}
    (hxs : xs.Pairwise fun x y => key x < key y) (s : S) :
    (sweep step xs s).1.map observe = xs.map fun y => f y (failed s || raisedBefore key raises xs y) := by
  induction xs generalizing s with
  | nil => rfl
  | cons x xs ih =>
    obtain ⟨hx, hxs⟩ := List.pairwise_cons.mp hxs
    rw [sweep, List.map_cons, List.map_cons, hobserve, raisedBefore_first hx, Bool.or_false, ih hxs]
    refine congrArg _ (List.map_congr_left fun y hy => ?_)
    rw [hstep, raisedBefore, raisedBefore, List.any_cons, Bool.or_assoc]
    simp [hx y hy]

end Loops

end Savepoints
