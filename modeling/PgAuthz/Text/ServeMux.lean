import PgAuthz.Text.Url
import Mathlib.Data.List.Forall2

/-!
# Dispatch by method and path

A multiplexer matches a path segment by segment as it was sent: each segment is decoded on its own, a
literal of a pattern is preferred to a wildcard, and a path that is not clean is redirected. What it
dispatches to is one of its routes, whose pattern the segments fit.

The decoded path has other segments, since an escaped slash is none for the multiplexer. They are those of
the decoded segments, in their order.

## Main definitions

* `Seg`, `Route`: patterns and what they are registered for
* `matchPath`, `dispatch`: the search of the routing tree, and what a request is answered by
* `Fits`: the segments that a pattern stands for

## Main results

* `exists_route_of_dispatch`: a request is dispatched to a route that its segments fit
* `splitOn_unescape`: the segments of a decoded path
-/

namespace ServeMux

open Url

variable {H : Type}

/-- A segment of a pattern. -/
inductive Seg
  | lit (text : Bytes)
  | wild
deriving DecidableEq

/-- A pattern with its method, and the handler that it is registered for. -/
structure Route (H : Type) where
  method : String
  segs : List Seg
  handler : H

/-- `pathUnescape`: a segment that cannot be decoded stays as it is. -/
def pathUnescape (s : Bytes) : Bytes := (unescape s).getD s

/-- The pattern has the literal for the text. -/
def Seg.isLit (text : Bytes) : Seg → Bool
  | lit l => l = text
  | wild => false

/-- The pattern has a wildcard. -/
def Seg.isWild : Seg → Bool
  | lit _ => false
  | wild => true

/-- The child of a node of the routing tree: what is left of the patterns whose next segment is `keep`. -/
def child (keep : Seg → Bool) (node : List (List Seg × H)) : List (List Seg × H) :=
  node.filterMap fun r =>
    match r.1 with
    | [] => none
    | seg :: segs => if keep seg then some (segs, r.2) else none

/-- `matchPath`: first the literals, then the wildcards. The empty segment behind a final slash is no
wildcard's, and neither is a segment that decodes to a slash. -/
def matchPath : List (List Seg × H) → List Bytes → Option H
  | node, [] => (node.find? fun r => r.1.isEmpty).map Prod.snd
  | node, s :: ss =>
    (matchPath (child (Seg.isLit (pathUnescape s)) node) ss).or
      (if pathUnescape s = [slash] ∨ (s = [] ∧ ss = []) then none else matchPath (child Seg.isWild node) ss)

/-- The node of the routing tree for a method. -/
def methodNode (routes : List (Route H)) (method : String) : List (List Seg × H) :=
  (routes.filter fun r => r.method = method).map fun r => (r.segs, r.handler)

/-- `matchMethodAndPath`: a `HEAD` is a `GET`, unless it has a route of its own. -/
def matchMethodAndPath (routes : List (Route H)) (method : String) (segs : List Bytes) : Option H :=
  (matchPath (methodNode routes method) segs).or
    (if method = "HEAD" then matchPath (methodNode routes "GET") segs else none)

/-- A clean path has no empty segment but the last, and no dot segments. -/
def clean (segs : List Bytes) : Bool :=
  segs.dropLast.all (· ≠ []) && segs.all fun s => s ≠ utf8 "." && s ≠ utf8 ".."

/-- The handler that answers a request for an escaped path, unless it is redirected or nothing is found. -/
def dispatch (routes : List (Route H)) (method : String) (escapedPath : Bytes) : Option H :=
  match escapedPath.splitOn slash with
  | [] :: segs => if method = "CONNECT" || clean segs then matchMethodAndPath routes method segs else none
  | _ => none

/-! ## Routes -/

/-- The segments that a pattern stands for. -/
def Fits : List Seg → List Bytes → Prop :=
  List.Forall₂ fun seg s =>
    match seg with
    | .lit l => pathUnescape s = l
    | .wild => pathUnescape s ≠ [slash]

theorem mem_child {keep : Seg → Bool} {node : List (List Seg × H)} {segs : List Seg} {h : H} :
    (segs, h) ∈ child keep node ↔ ∃ seg, keep seg = true ∧ (seg :: segs, h) ∈ node := by
  unfold child
  rw [List.mem_filterMap]
  constructor
  · rintro ⟨⟨_ | ⟨seg, rest⟩, h'⟩, hmem, heq⟩
    · cases heq
    · dsimp only at heq
      split at heq
      · cases heq
        exact ⟨seg, ‹_›, hmem⟩
      · cases heq
  · rintro ⟨seg, hkeep, hmem⟩
    exact ⟨_, hmem, if_pos hkeep⟩

/-- The search ends at a pattern that the segments fit. -/
theorem exists_of_matchPath {node : List (List Seg × H)} {segs : List Bytes} {h : H}
    (hmatch : matchPath node segs = some h) : ∃ pattern, (pattern, h) ∈ node ∧ Fits pattern segs := by
  induction segs generalizing node with
  | nil =>
    obtain ⟨⟨pattern, h'⟩, hfind, rfl⟩ := Option.map_eq_some_iff.mp hmatch
    have hempty := List.find?_some hfind
    obtain rfl : pattern = [] := List.isEmpty_iff.mp hempty
    exact ⟨[], List.mem_of_find?_eq_some hfind, .nil⟩
  | cons s ss ih =>
    rcases Option.or_eq_some_iff.mp hmatch with hlit | ⟨-, hwild⟩
    · obtain ⟨pattern, hmem, hfits⟩ := ih hlit
      obtain ⟨seg, hseg, hmem⟩ := mem_child.mp hmem
      refine ⟨seg :: pattern, hmem, .cons ?_ hfits⟩
      cases seg with
      | lit l => exact (of_decide_eq_true hseg).symm
      | wild => cases hseg
    · split at hwild
      · cases hwild
      · rename_i hne
        obtain ⟨pattern, hmem, hfits⟩ := ih hwild
        obtain ⟨seg, hseg, hmem⟩ := mem_child.mp hmem
        refine ⟨seg :: pattern, hmem, .cons ?_ hfits⟩
        cases seg with
        | lit l => cases hseg
        | wild => exact fun heq => hne (Or.inl heq)

theorem exists_of_methodNode {routes : List (Route H)} {method : String} {segs : List Bytes} {h : H}
    (hmatch : matchPath (methodNode routes method) segs = some h) :
    ∃ r ∈ routes, r.handler = h ∧ Fits r.segs segs := by
  obtain ⟨pattern, hmem, hfits⟩ := exists_of_matchPath hmatch
  obtain ⟨r, hr, heq⟩ := List.mem_map.mp hmem
  cases heq
  exact ⟨r, (List.mem_filter.mp hr).1, rfl, hfits⟩

/-- **A request is dispatched to a route that its segments fit.** -/
theorem exists_route_of_dispatch {routes : List (Route H)} {method : String} {escapedPath : Bytes} {h : H}
    (hdispatch : dispatch routes method escapedPath = some h) :
    ∃ segs, escapedPath.splitOn slash = [] :: segs ∧ ∃ r ∈ routes, r.handler = h ∧ Fits r.segs segs := by
  unfold dispatch at hdispatch
  split at hdispatch
  · rename_i segs hsegs
    refine ⟨segs, hsegs, ?_⟩
    split at hdispatch
    · rcases Option.or_eq_some_iff.mp hdispatch with hmatch | ⟨-, hhead⟩
      · exact exists_of_methodNode hmatch
      · split at hhead
        · exact exists_of_methodNode hhead
        · cases hhead
    · cases hdispatch
  · cases hdispatch

/-! ## Decoded paths -/

/-- A path is decoded segment by segment. -/
theorem unescape_intercalate {segs : List Bytes} (hne : segs ≠ []) {path : Bytes}
    (h : unescape ([slash].intercalate segs) = some path) :
    path = [slash].intercalate (segs.map pathUnescape) := by
  induction segs generalizing path with
  | nil => exact absurd rfl hne
  | cons s ss ih =>
    cases ss with
    | nil =>
      have hs : unescape s = some path := by simpa [List.intercalate] using h
      simp [List.intercalate, pathUnescape, hs]
    | cons s' ss =>
      rw [List.intercalate_cons_cons, List.append_assoc, List.singleton_append, unescape_append_slash] at h
      obtain ⟨d, hd, h⟩ := Option.bind_eq_some_iff.mp h
      obtain ⟨rest, hrest, rfl⟩ := Option.map_eq_some_iff.mp h
      have hpath := ih (List.cons_ne_nil _ _) hrest
      rw [List.map_cons, List.map_cons, List.intercalate_cons_cons, ← List.map_cons, ← hpath, pathUnescape,
        hd, Option.getD_some, List.append_assoc, List.singleton_append]

theorem splitOn_intercalate_flatMap {segs : List Bytes} (hne : segs ≠ []) :
    ([slash].intercalate segs).splitOn slash = segs.flatMap (List.splitOn slash) := by
  induction segs with
  | nil => exact absurd rfl hne
  | cons s ss ih =>
    cases ss with
    | nil => simp [List.intercalate]
    | cons s' ss =>
      rw [List.intercalate_cons_cons, List.append_assoc, List.singleton_append, List.splitOn_append_cons_self,
        ih (List.cons_ne_nil _ _)]
      simp only [List.flatMap_cons]

/-- **The segments of a decoded path** are those of its decoded segments. -/
theorem splitOn_unescape {escapedPath path : Bytes} (h : unescape escapedPath = some path) :
    path.splitOn slash = ((escapedPath.splitOn slash).map pathUnescape).flatMap (List.splitOn slash) := by
  have hne : escapedPath.splitOn slash ≠ [] := List.splitOn_ne_nil _ _
  have hpath : unescape ([slash].intercalate (escapedPath.splitOn slash)) = some path := by
    rw [List.intercalate_splitOn, h]
  rw [unescape_intercalate hne hpath, splitOn_intercalate_flatMap fun hnil => hne (List.map_eq_nil_iff.mp hnil)]

end ServeMux
