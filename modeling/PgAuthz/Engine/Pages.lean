import PgAuthz.Engine.ListSubjects
import PgAuthz.Transition.Fetching

/-!
# The pages of the listings

`_list_objects` and `_list_subjects` return a page after the id `p_after`, or after `p_offset` rows.
The ids after the cursor are taken before the candidates are decided, the order and the limit apply
after that. A client that continues after the last id of each page until a short one collects what
the listing without bounds returns, and so does one that counts rows.

## Main definitions

* `keysetFetch`, `offsetFetch`: the two ways to page through a listing
* `Lossless`: both give the pages of the whole listing, in order and each id once
* `pageListing`: what both listings do with their candidates

## Main results

* `pageListing_lossless`: the pages of the candidates of any walk are lossless
* `listings_lossless`: so are those of both listings, for every page size
-/

namespace PgAuthz

open Fetching

/-- A listing by its limit, its offset and the id it continues after. -/
abbrev Listing (ε : Type) := Option ℕ → ℕ → Option String → Except ε (List (String × Bool))

section Listing

variable {ε : Type}

/-- A client that continues after the last id of each page collects these pages. -/
def KeysetPages (list : Listing ε) (n : ℕ+) : Option String → List (List (String × Bool)) → Prop :=
  Fetched (fun after => list (some n) 0 after) (fun _ row => some row.1) n

/-- A client that counts the rows it got collects these pages. -/
def OffsetPages (list : Listing ε) (n : ℕ+) : ℕ → List (List (String × Bool)) → Prop :=
  Fetched (fun offset => list (some n) offset none) (fun offset _ => offset + n) n

/-- **Paging loses nothing**: a listing without bounds returns what the pages after the last ids hold
one after the other, the pages by offset are the same, and no id is repeated or out of order. -/
structure Lossless (list : Listing ε) (n : ℕ+) : Prop where
  whole : ∀ all, list none 0 none = .ok all ↔
    ∃ pages, KeysetPages list n none pages ∧ pages.flatten = all
  offset : ∀ pages, KeysetPages list n none pages ↔ OffsetPages list n 0 pages
  ordered : ∀ all, list none 0 none = .ok all → (all.map Prod.fst).Pairwise (· < ·)

/-- What both listings do with the ids their walk finds. -/
def pageListing (verify : String → Except ε Bool) (ids : List String) : Listing ε :=
  fun limit offset after =>
    (page verify (if after.isNone then offset else 0) limit (candidates ids after)).map
      fun rows => rows.map fun o => (o, decide (o = wildcard))

/-! ## Candidates -/

/-- The candidates are in order, each once. -/
theorem candidates_sorted (ids : List String) (after : Option String) :
    (candidates ids after).Pairwise (· < ·) := by
  have hle : (candidates ids after).Pairwise (· ≤ ·) := List.pairwise_insertionSort _ _
  have hne : (candidates ids after).Nodup :=
    (List.perm_insertionSort _ _).nodup_iff.mpr ((List.nodup_dedup ids).filter _)
  exact (hle.and hne).imp fun h => lt_of_le_of_ne h.1 h.2

/-- A later cursor leaves out the candidates up to it, and no others. -/
theorem candidates_after {ids : List String} {after : Option String} {a : String}
    (ha : a ∈ candidates ids after) :
    candidates ids (some a) = (candidates ids after).filter fun o => decide (a < o) := by
  have hsorted := (candidates_sorted ids after).filter fun o => decide (a < o)
  refine @List.Perm.eq_of_pairwise _ (· < ·) _ _ (fun x y _ _ hxy hyx => absurd hyx hxy.not_gt)
    (candidates_sorted ids (some a)) hsorted ?_
  refine (List.perm_ext_iff_of_nodup ?_ ?_).mpr fun o => ?_
  · exact (candidates_sorted ids (some a)).imp fun h => ne_of_lt h
  · exact hsorted.imp fun h => ne_of_lt h
  · have hlast := (mem_candidates.mp ha).2
    rw [List.mem_filter, mem_candidates, mem_candidates]
    constructor
    · rintro ⟨hmem, hlt⟩
      exact ⟨⟨hmem, fun b hb => (hlast b hb).trans (hlt a rfl)⟩, decide_eq_true (hlt a rfl)⟩
    · rintro ⟨⟨hmem, -⟩, hlt⟩
      exact ⟨hmem, fun b hb => Option.some.inj hb ▸ of_decide_eq_true hlt⟩

/-! ## Pages of verified candidates -/

variable {verify : String → Except ε Bool}

/-- The candidates that are decided to be allowed. -/
def allowed (verify : String → Except ε Bool) (cs : List String) : List String :=
  cs.filter fun c => (verify c).toOption = some true

/-- The candidate is decided, without an error. -/
def Decided (verify : String → Except ε Bool) (c : String) : Prop := ∃ b, verify c = .ok b

/-- Where every candidate can be decided a page is a window of the allowed ones. -/
theorem page_of_decided {cs : List String} (h : ∀ c ∈ cs, Decided verify c) (offset : ℕ)
    (limit : Option ℕ) : page verify offset limit cs =
      .ok (match limit with
        | none => (allowed verify cs).drop offset
        | some n => ((allowed verify cs).drop offset).take n) := by
  induction cs generalizing offset limit with
  | nil => cases limit <;> simp [page, allowed]
  | cons c cs ih =>
    have ih := fun offset limit => ih (fun c hc => h c (List.mem_cons_of_mem _ hc)) offset limit
    obtain ⟨b, hb⟩ := h c List.mem_cons_self
    rw [page]
    by_cases hl : limit = some 0
    · subst hl
      simp
    · rw [if_neg hl, hb]
      cases b with
      | false =>
        have hskip : allowed verify (c :: cs) = allowed verify cs := by
          simp [allowed, hb, Except.toOption]
        simp only [ih, hskip]
      | true =>
        have hkeep : allowed verify (c :: cs) = c :: allowed verify cs := by
          simp [allowed, hb, Except.toOption]
        simp only [ih, hkeep]
        cases offset with
        | zero =>
          rcases limit with - | - | n
          · simp [Except.map]
          · exact absurd rfl hl
          · simp [Except.map]
        | succ k => simp

/-- A page that is shorter than its limit has decided every candidate. -/
theorem decided_of_short {cs rows : List String} {offset : ℕ} {limit : Option ℕ}
    (h : page verify offset limit cs = .ok rows) (hshort : ∀ n, limit = some n → rows.length < n) :
    ∀ c ∈ cs, Decided verify c := by
  induction cs generalizing offset limit rows with
  | nil => simp
  | cons a cs ih =>
    rw [List.forall_mem_cons]
    rcases page_cons h with ⟨hl, rfl⟩ | ⟨hv, ht⟩ | ⟨hv, -, ht⟩ | ⟨hv, -, rows', ht, rfl⟩
    · exact absurd (hshort 0 hl) (by simp)
    · exact ⟨⟨_, hv⟩, ih ht hshort⟩
    · exact ⟨⟨_, hv⟩, ih ht hshort⟩
    · refine ⟨⟨_, hv⟩, ih ht fun n hn => ?_⟩
      obtain ⟨m, rfl, rfl⟩ := Option.map_eq_some_iff.mp hn
      have := hshort m rfl
      rw [List.length_cons] at this
      omega

/-- A page has decided every candidate up to its last row. -/
theorem decided_of_le_last {cs rows : List String} {offset : ℕ} {limit : Option ℕ} {a : String}
    (hcs : cs.Pairwise (· < ·)) (h : page verify offset limit cs = .ok rows)
    (ha : rows.getLast? = some a) : ∀ c ∈ cs, c ≤ a → Decided verify c := by
  induction cs generalizing offset limit rows with
  | nil => simp
  | cons c cs ih =>
    obtain ⟨hlt, hcs⟩ := List.pairwise_cons.mp hcs
    rw [List.forall_mem_cons]
    rcases page_cons h with ⟨-, rfl⟩ | ⟨hv, ht⟩ | ⟨hv, -, ht⟩ | ⟨hv, -, rows', ht, rfl⟩
    · cases ha
    · exact ⟨fun _ => ⟨_, hv⟩, ih hcs ht ha⟩
    · exact ⟨fun _ => ⟨_, hv⟩, ih hcs ht ha⟩
    · refine ⟨fun _ => ⟨_, hv⟩, ?_⟩
      cases hlast : rows'.getLast? with
      | some b =>
        rw [List.getLast?_cons, hlast, Option.getD_some, Option.some.injEq] at ha
        exact ih hcs ht (by rw [hlast, ha])
      | none =>
        -- the page ends at `c`, and the other candidates come after it
        rw [List.getLast?_cons, hlast, Option.getD_none, Option.some.injEq] at ha
        subst ha
        intro d hd hle
        exact absurd hle (hlt d hd).not_ge

/-! ## The pages of a listing -/

variable {ids : List String}
/-- The row of an id. -/
def markWildcard (o : String) : String × Bool := (o, decide (o = wildcard))

/-- What a listing has left after a cursor. -/
def leftAfter (verify : String → Except ε Bool) (ids : List String) (after : Option String) :
    List (String × Bool) := (allowed verify (candidates ids after)).map markWildcard

theorem allowed_filter (p : String → Bool) (cs : List String) :
    allowed verify (cs.filter p) = (allowed verify cs).filter p := by
  simp only [allowed, List.filter_filter, Bool.and_comm]

theorem leftAfter_last {after : Option String} {n : ℕ} {row : String × Bool}
    (h : ((leftAfter verify ids after).take n).getLast? = some row) :
    leftAfter verify ids (some row.1) = (leftAfter verify ids after).drop n := by
  rw [leftAfter, ← List.map_take, List.getLast?_map, Option.map_eq_some_iff] at h
  obtain ⟨o, ho, rfl⟩ := h
  have hmem : o ∈ candidates ids after :=
    List.mem_of_mem_filter (List.mem_of_mem_take (List.mem_of_getLast? ho))
  have hsorted : (allowed verify (candidates ids after)).Pairwise (· < ·) :=
    (candidates_sorted ids after).filter _
  rw [leftAfter, leftAfter, markWildcard, candidates_after hmem, allowed_filter,
    filter_last_lt hsorted ho, List.map_drop]

theorem pageListing_of_decided (h : ∀ c ∈ candidates ids none, Decided verify c) :
    (∀ limit offset, pageListing verify ids limit offset none =
      .ok (match limit with
        | none => (leftAfter verify ids none).drop offset
        | some n => ((leftAfter verify ids none).drop offset).take n)) ∧
    ∀ n after, pageListing verify ids (some n) 0 after =
      .ok ((leftAfter verify ids after).take n) := by
  refine ⟨fun limit offset => ?_, fun n after => ?_⟩
  · rw [pageListing, Option.isNone_none, if_pos rfl, page_of_decided h]
    cases limit <;> simp only [Except.map, leftAfter, List.map_drop, List.map_take] <;> rfl
  · have hafter : ∀ c ∈ candidates ids after, Decided verify c := fun c hc =>
      h c (mem_candidates.mpr ⟨(mem_candidates.mp hc).1, fun a ha => nomatch ha⟩)
    rw [pageListing, ite_self, page_of_decided hafter]
    simp only [Except.map, leftAfter, List.drop_zero, List.map_take]
    rfl

theorem pageListing_eq_ok {limit : Option ℕ} {offset : ℕ} {after : Option String}
    {rows : List (String × Bool)} : pageListing verify ids limit offset after = .ok rows ↔
      ∃ os, page verify (if after.isNone then offset else 0) limit (candidates ids after) = .ok os ∧
        os.map markWildcard = rows := by
  rw [pageListing]
  generalize page verify (if after.isNone then offset else 0) limit (candidates ids after) = x
  cases x with
  | error e => exact ⟨fun h => (nomatch h), fun ⟨_, h, _⟩ => (nomatch h)⟩
  | ok os =>
    simp only [Except.map, Except.ok.injEq, exists_eq_left']
    rfl

/-- Pages after the last ids decide every candidate: each page those up to its last row, the last
one the others. -/
theorem decided_of_keysetPages {n : ℕ+} {after : Option String}
    {pages : List (List (String × Bool))} (h : KeysetPages (pageListing verify ids) n after pages) :
    ∀ c ∈ candidates ids after, Decided verify c := by
  induction h with
  | last hfetch hshort =>
    obtain ⟨os, hpage, rfl⟩ := pageListing_eq_ok.mp hfetch
    apply decided_of_short hpage
    intro m hm
    cases hm
    simpa using hshort
  | more hfetch hfull hrow hrest ih =>
    obtain ⟨os, hpage, rfl⟩ := pageListing_eq_ok.mp hfetch
    rw [List.getLast?_map, Option.map_eq_some_iff] at hrow
    obtain ⟨o, ho, rfl⟩ := hrow
    intro c hc
    rcases le_or_gt c o with hle | hgt
    · exact decided_of_le_last (candidates_sorted ids _) hpage ho c hc hle
    · exact ih c (mem_candidates.mpr ⟨(mem_candidates.mp hc).1,
        fun b hb => Option.some.inj hb ▸ hgt⟩)

/-- Pages by offset decide every candidate in the last one. -/
theorem decided_of_offsetPages {n : ℕ+} {offset : ℕ} {pages : List (List (String × Bool))}
    (h : OffsetPages (pageListing verify ids) n offset pages) :
    ∀ c ∈ candidates ids none, Decided verify c := by
  induction h with
  | last hfetch hshort =>
    obtain ⟨os, hpage, rfl⟩ := pageListing_eq_ok.mp hfetch
    apply decided_of_short hpage
    intro m hm
    cases hm
    simpa using hshort
  | more hfetch hfull hrow hrest ih => exact ih

theorem decided_of_whole {all : List (String × Bool)}
    (h : pageListing verify ids none 0 none = .ok all) :
    ∀ c ∈ candidates ids none, Decided verify c := by
  obtain ⟨os, hpage, -⟩ := pageListing_eq_ok.mp h
  exact decided_of_short hpage fun n hn => nomatch hn

/-- **The pages of verified candidates are lossless.** Whichever way a client pages, it gets to the
end only if every candidate is decided; then the pages are the chunks of the allowed ones. -/
theorem pageListing_lossless (verify : String → Except ε Bool) (ids : List String) (n : ℕ+) :
    Lossless (pageListing verify ids) n := by
  have hkeyset : (∀ c ∈ candidates ids none, Decided verify c) → ∀ pages,
      KeysetPages (pageListing verify ids) n none pages ↔
        pages = chunks n (leftAfter verify ids none) := by
    intro h pages
    exact fetched_iff_chunks (leftAfter verify ids) ((pageListing_of_decided h).2 n)
      (fun _ _ _ hrow => leftAfter_last hrow) none
  have hoffset : (∀ c ∈ candidates ids none, Decided verify c) → ∀ pages,
      OffsetPages (pageListing verify ids) n 0 pages ↔
        pages = chunks n (leftAfter verify ids none) := by
    intro h pages
    refine fetched_iff_chunks (fun offset => (leftAfter verify ids none).drop offset)
      (fun offset => (pageListing_of_decided h).1 (some n) offset) ?_ 0
    intro offset row _ _
    rw [List.drop_drop]
  refine ⟨fun all => ⟨fun h => ?_, ?_⟩, fun pages => ⟨fun h => ?_, fun h => ?_⟩, fun all h => ?_⟩
  · have hd := decided_of_whole h
    refine ⟨_, (hkeyset hd _).mpr rfl, ?_⟩
    rw [(pageListing_of_decided hd).1 none 0] at h
    rw [flatten_chunks]
    exact Except.ok.inj h
  · rintro ⟨pages, h, rfl⟩
    have hd := decided_of_keysetPages h
    rw [(hkeyset hd pages).mp h, flatten_chunks]
    exact (pageListing_of_decided hd).1 none 0
  · have hd := decided_of_keysetPages h
    exact (hoffset hd pages).mpr ((hkeyset hd pages).mp h)
  · have hd := decided_of_offsetPages h
    exact (hkeyset hd pages).mpr ((hoffset hd pages).mp h)
  · rw [(pageListing_of_decided (decided_of_whole h)).1 none 0] at h
    cases h
    rw [List.drop_zero, leftAfter, List.map_map]
    have hid : Prod.fst ∘ markWildcard = id := rfl
    rw [hid, List.map_id]
    exact (candidates_sorted ids none).filter _

/-- A listing that always fails is not paged through. -/
theorem lossless_of_error (e : ε) (n : ℕ+) : Lossless (fun _ _ _ => .error e) n := by
  have hno : ∀ {κ : Type} {next : κ → String × Bool → κ} {k pages},
      ¬Fetched (fun _ => (.error e : Except ε (List (String × Bool)))) next n k pages := by
    rintro κ next k pages (⟨h, -⟩ | ⟨h, -⟩) <;> cases h
  refine ⟨fun all => ?_, fun pages => ?_, fun all h => (nomatch h)⟩
  · constructor
    · exact fun h => nomatch h
    · rintro ⟨pages, h, -⟩
      exact absurd h hno
  · exact ⟨fun h => absurd h hno, fun h => absurd h hno⟩

end Listing

/-! ## Both listings -/

/-- A listing of objects pages the candidates of its walk, or fails, or is empty, by its gates. -/
theorem listObjects_eq_pageListing (env : DecideEnv) (relation objectType : ℕ) (assume : Bool) :
    (∃ verify ids, listObjects env relation objectType assume = pageListing verify ids) ∨
      ∃ e, listObjects env relation objectType assume = fun _ _ _ => .error e := by
  have hids : ∃ ids, ids = ((reachObjects env.check).filter fun n =>
      n.objectType = objectType ∧ n.relation = relation).map Node.objectId := ⟨_, rfl⟩
  obtain ⟨ids, hids⟩ := hids
  by_cases hscope : eventGatesObjectScoped (env.gates.resolve objectType relation)
  · refine .inl ⟨fun o => decideAccess env (some (env.gates.resolve objectType relation))
      ⟨⟨relation, objectType, o⟩, assume⟩, ids, ?_⟩
    funext limit offset after
    rw [listObjects]
    dsimp only
    rw [if_pos hscope, ← hids]
    rfl
  · cases hgates : eventCheckGates env.gates env.check.userType env.check.userId relation objectType
        none (env.gates.resolve objectType relation) with
    | error e =>
      refine .inr ⟨.raised e, ?_⟩
      funext limit offset after
      simp only [listObjects, hscope, hgates, Bool.false_eq_true, if_false]
    | ok b =>
      cases b with
      | true =>
        refine .inl ⟨fun o => decideAccess env (some []) ⟨⟨relation, objectType, o⟩, assume⟩, ids, ?_⟩
        funext limit offset after
        simp only [listObjects, hscope, hgates, Bool.false_eq_true, if_false, ← hids]
        rfl
      | false =>
        -- a subject that the gates refuse has no candidates
        refine .inl ⟨fun _ => .ok false, [], ?_⟩
        funext limit offset after
        simp only [listObjects, hscope, hgates, Bool.false_eq_true, if_false]
        cases after <;> rfl

/-- **Paging through the listings loses nothing**, for every state, every question and every page
size: no id is lost, repeated or out of order, the wildcard row included. -/
theorem listings_lossless (env : DecideEnv) (n : ℕ+) :
    (∀ relation objectType assume, Lossless (listObjects env relation objectType assume) n) ∧
      ∀ subjectType q, Lossless (listSubjects env subjectType q) n := by
  refine ⟨fun relation objectType assume => ?_, fun subjectType q => ?_⟩
  · rcases listObjects_eq_pageListing env relation objectType assume with
      ⟨verify, ids, h⟩ | ⟨e, h⟩
    · rw [h]
      exact pageListing_lossless verify ids n
    · rw [h]
      exact lossless_of_error e n
  · exact pageListing_lossless _ _ n

end PgAuthz
