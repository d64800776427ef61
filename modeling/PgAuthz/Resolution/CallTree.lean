import PgAuthz.Resolution.Traced

/-!
# Trees of calls

A search that reports has a tree of calls: what it reports of a call are trees, and the trees of a call become
the children of the step that reports its answer. Written in post-order the trees are the list of the steps as
they are reported.

The trees can be rebuilt from the list and the depths alone, if every call is followed by the step that reports
its answer, one level above the steps of the call: a step then adopts what is deeper and has no parent yet.

## Main definitions

* `CallTree`, `flatten`: trees of steps, and their steps in post-order
* `rebuild`: the trees of a list of steps, by their depths
* `callForest`: the search that collects trees of calls
* `Walk.Reporting`: a walk that reports every answer directly after it has asked

## Main results

* `rebuild_flatten`: trees whose depths are those of their levels are rebuilt from their steps
* `tracedSearch_eq`: the reporting search reports the steps of its trees
* `callForest_spec`: the levels and the children of the trees of a search
-/

namespace Resolution

variable {S : Type}

/-- A step with the trees of its own call. -/
inductive CallTree (S : Type) : Type
  | node (step : S) (children : List (CallTree S))

/-- The step at the root. -/
def CallTree.step : CallTree S → S
  | node s _ => s

mutual

/-- The steps of a tree, children first. -/
def CallTree.postorder : CallTree S → List S
  | .node s cs => flatten cs ++ [s]

/-- The steps of trees. -/
def flatten : List (CallTree S) → List S
  | [] => []
  | t :: ts => t.postorder ++ flatten ts

end

theorem flatten_append (ts us : List (CallTree S)) : flatten (ts ++ us) = flatten ts ++ flatten us := by
  induction ts with
  | nil => rfl
  | cons t ts ih => rw [List.cons_append, flatten, flatten, ih, List.append_assoc]

theorem flatten_singleton (s : S) (cs : List (CallTree S)) : flatten [.node s cs] = flatten cs ++ [s] := by
  rw [flatten, flatten, CallTree.postorder, List.append_nil]

mutual

/-- The root is at depth `d`, its children are one level deeper, and so on. -/
def CallTree.Leveled (depth : S → ℕ) (d : ℕ) : CallTree S → Prop
  | .node s cs => depth s = d ∧ Leveled depth (d + 1) cs

/-- All roots are at depth `d`, and so on. -/
def Leveled (depth : S → ℕ) (d : ℕ) : List (CallTree S) → Prop
  | [] => True
  | t :: ts => t.Leveled depth d ∧ Leveled depth d ts

end

theorem leveled_append {depth : S → ℕ} {d : ℕ} {ts us : List (CallTree S)} :
    Leveled depth d (ts ++ us) ↔ Leveled depth d ts ∧ Leveled depth d us := by
  induction ts with
  | nil => simp [Leveled]
  | cons t ts ih => rw [List.cons_append, Leveled, Leveled, ih, and_assoc]

mutual

/-- Every step of a tree and its children are in `P`. -/
def CallTree.Every (P : S → List (CallTree S) → Prop) : CallTree S → Prop
  | .node s cs => P s cs ∧ Every P cs

/-- Every step of trees and its children are in `P`. -/
def Every (P : S → List (CallTree S) → Prop) : List (CallTree S) → Prop
  | [] => True
  | t :: ts => t.Every P ∧ Every P ts

end

theorem every_append {P : S → List (CallTree S) → Prop} {ts us : List (CallTree S)} :
    Every P (ts ++ us) ↔ Every P ts ∧ Every P us := by
  induction ts with
  | nil => simp [Every]
  | cons t ts ih => rw [List.cons_append, Every, Every, ih, and_assoc]

mutual

theorem CallTree.Every.imp {P P' : S → List (CallTree S) → Prop} (hP : ∀ s cs, P s cs → P' s cs) :
    ∀ {t : CallTree S}, t.Every P → t.Every P'
  | .node s cs, h => ⟨hP s cs h.1, Every.imp hP h.2⟩

theorem Every.imp {P P' : S → List (CallTree S) → Prop} (hP : ∀ s cs, P s cs → P' s cs) :
    ∀ {ts : List (CallTree S)}, Every P ts → Every P' ts
  | [], _ => trivial
  | _ :: _, h => ⟨CallTree.Every.imp hP h.1, Every.imp hP h.2⟩

end

/-! ## Rebuilding -/

section Rebuild

variable (depth : S → ℕ)

/-- The trees on top of the stack that are deeper than `d`, in front of `cs`, and the rest of the stack. -/
def popDeeper (d : ℕ) : List (CallTree S) → List (CallTree S) → List (CallTree S) × List (CallTree S)
  | [], cs => (cs, [])
  | t :: stack, cs => if d < depth t.step then popDeeper d stack (t :: cs) else (cs, t :: stack)

/-- A step adopts the deeper trees on top of the stack. -/
def push (stack : List (CallTree S)) (s : S) : List (CallTree S) :=
  .node s (popDeeper depth (depth s) stack []).1 :: (popDeeper depth (depth s) stack []).2

/-- The trees of a list of steps. -/
def rebuild (steps : List S) : List (CallTree S) := (steps.foldl (push depth) []).reverse

variable {depth}

/-- The trees of one level are popped in their order, down to a tree that is not deeper. -/
theorem popDeeper_reverse {d : ℕ} {ts stack : List (CallTree S)} (hts : Leveled depth (d + 1) ts)
    (hstack : ∀ t ∈ stack.head?, depth t.step ≤ d) (cs : List (CallTree S)) :
    popDeeper depth d (ts.reverse ++ stack) cs = (ts ++ cs, stack) := by
  induction ts using List.reverseRecOn generalizing cs with
  | nil =>
    cases stack with
    | nil => rfl
    | cons t stack =>
      have hle : ¬ d < depth t.step := Nat.not_lt.mpr (hstack t rfl)
      rw [List.reverse_nil, List.nil_append, popDeeper, if_neg hle, List.nil_append]
  | append_singleton ts t ih =>
    obtain ⟨hts, ht, -⟩ := leveled_append.mp hts
    have hlt : d < depth t.step := by
      cases t with
      | node s cs =>
        rw [CallTree.step, ht.1]
        omega
    rw [List.reverse_append, List.reverse_singleton, List.singleton_append, List.cons_append, popDeeper,
      if_pos hlt, ih hts, List.append_assoc, List.singleton_append]

mutual

/-- **The steps of a tree leave the tree on the stack**, if what is below it is not deeper. -/
theorem foldl_push_postorder {d : ℕ} : ∀ {t : CallTree S} {stack : List (CallTree S)}, t.Leveled depth d →
    (∀ u ∈ stack.head?, depth u.step ≤ d) → t.postorder.foldl (push depth) stack = t :: stack
  | .node s cs, stack, ht, hstack => by
    have hchildren := foldl_push_flatten ht.2 fun u hu => Nat.le_succ_of_le (hstack u hu)
    rw [CallTree.postorder, List.foldl_append, hchildren, List.foldl_cons, List.foldl_nil, push, ht.1,
      popDeeper_reverse ht.2 hstack, List.append_nil]

/-- **So do the steps of trees.** -/
theorem foldl_push_flatten {d : ℕ} : ∀ {ts stack : List (CallTree S)}, Leveled depth d ts →
    (∀ u ∈ stack.head?, depth u.step ≤ d) →
    (flatten ts).foldl (push depth) stack = ts.reverse ++ stack
  | [], stack, _, _ => rfl
  | t :: ts, stack, hts, hstack => by
    have htop : ∀ u ∈ (t :: stack).head?, depth u.step ≤ d := by
      rintro u ⟨⟩
      cases t with
      | node s cs => exact le_of_eq hts.1.1
    rw [flatten, List.foldl_append, foldl_push_postorder hts.1 hstack, foldl_push_flatten hts.2 htop,
      List.reverse_cons, List.append_assoc, List.singleton_append]

end

/-- **Trees are rebuilt from their steps.** -/
theorem rebuild_flatten {d : ℕ} {ts : List (CallTree S)} (h : Leveled depth d ts) :
    rebuild depth (flatten ts) = ts := by
  rw [rebuild, foldl_push_flatten h (fun u hu => by cases hu), List.append_nil, List.reverse_reverse]

end Rebuild

/-! ## Trees of a search -/

section Search

variable {ε Q K σ τ α β : Type} [DecidableEq K]

/-- The trees of a call so far, and those of the calls that no step has reported yet. -/
structure Growth (S : Type) where
  trees : List (CallTree S)
  pending : List (CallTree S)

/-- A call has left its trees. -/
def Growth.called (st : Growth S) (ts : List (CallTree S)) : Growth S := ⟨st.trees, st.pending ++ ts⟩

/-- A step takes the pending trees as its children. -/
def Growth.reported (st : Growth S) (s : S) : Growth S := ⟨st.trees ++ [.node s st.pending], []⟩

/-- All trees. -/
def Growth.all (st : Growth S) : List (CallTree S) := st.trees ++ st.pending

/-- A call adds its trees, and a step is reported. -/
def Growth.answer (call : Q → Except (Halt ε) (Bool × List (CallTree S))) :
    Q ⊕ S → Growth S → Except (Halt ε) (Bool × Growth S)
  | .inl q, st => (call q).map fun r => (r.1, st.called r.2)
  | .inr s, st => .ok (true, st.reported s)

/-- `tracedSearch`, with the trees of its calls. -/
def callForest (site : Q → K) (cut : ℕ → Q → S) (body : ℕ → Q → Walk ε (Q ⊕ S) Bool) :
    ℕ → ℕ → List Q → Q → Except (Halt ε) (Bool × List (CallTree S))
  | 0, _, _, _ => .error .depth
  | f + 1, d, P, q =>
    if site q ∈ P.map site then .ok (false, [.node (cut d q) []])
    else
      ((body d q).run (Growth.answer (callForest site cut body f (d + 1) (q :: P))) ⟨[], []⟩).map
        fun r => (r.1, r.2.all)

/-- A walk that threads a state, seen through a map of the states. -/
theorem Walk.run_map {h : Q → σ → Except (Halt ε) (Bool × σ)} {h' : Q → τ → Except (Halt ε) (Bool × τ)}
    {φ : σ → τ} (hφ : ∀ q s, h' q (φ s) = (h q s).map fun r => (r.1, φ r.2)) (w : Walk ε Q α) (s : σ) :
    w.run h' (φ s) = (w.run h s).map fun r => (r.1, φ r.2) := by
  induction w generalizing s with
  | done a => rfl
  | raise e => rfl
  | ask q k ih =>
    rw [run, run, hφ]
    rcases h q s with e | ⟨b, s'⟩
    · rfl
    · exact ih b s'

theorem flatten_called (st : Growth S) (ts : List (CallTree S)) :
    flatten (st.called ts).all = flatten st.all ++ flatten ts := by
  rw [Growth.called, Growth.all, Growth.all, ← List.append_assoc, flatten_append]

theorem flatten_reported (st : Growth S) (s : S) : flatten (st.reported s).all = flatten st.all ++ [s] := by
  rw [Growth.reported, Growth.all, Growth.all, List.append_nil, flatten_append, flatten_append,
    flatten_singleton, List.append_assoc]

/-- **The reporting search reports the steps of its trees**, in post-order. -/
theorem tracedSearch_eq {site : Q → K} {cut : ℕ → Q → S} {body : ℕ → Q → Walk ε (Q ⊕ S) Bool} (f d : ℕ)
    (P : List Q) (q : Q) (steps : List S) :
    tracedSearch site cut body f d P q steps =
      (callForest site cut body f d P q).map fun r => (r.1, steps ++ flatten r.2) := by
  induction f generalizing d P q steps with
  | zero => rfl
  | succ f ih =>
    rw [tracedSearch, callForest]
    split
    · rfl
    · have hstart : steps = (fun st : Growth S => steps ++ flatten st.all) ⟨[], []⟩ :=
        (List.append_nil steps).symm
      conv_lhs => rw [hstart]
      refine Eq.trans (@Walk.run_map ε (Q ⊕ S) _ _ _ (Growth.answer (callForest site cut body f (d + 1) (q :: P)))
        _ (fun st => steps ++ flatten st.all) ?_ (body d q) ⟨[], []⟩) ?_
      · rintro (q' | s) st
        · dsimp only
          rw [ih, Growth.answer]
          cases callForest site cut body f (d + 1) (q :: P) q' with
          | error e => rfl
          | ok r =>
            show Except.ok (r.1, _) = Except.ok (r.1, steps ++ flatten (st.called r.2).all)
            rw [flatten_called, List.append_assoc]
        · show Except.ok (true, _) = Except.ok (true, steps ++ flatten (st.reported s).all)
          rw [flatten_reported, List.append_assoc]
      · cases (body d q).run (Growth.answer (callForest site cut body f (d + 1) (q :: P))) ⟨[], []⟩ <;> rfl

/-! ## Calls and the steps that report them -/

/-- The walk reports the answer to each question directly after it has asked, by a step in `own`; the steps
that report no answer are in `leaf`. An answer may be owed. -/
def Walk.Reporting (own : Q → Bool → S → Prop) (leaf : S → Prop) : Option (Q × Bool) → Walk ε (Q ⊕ S) α → Prop
  | owed, done _ => owed = none
  | _, raise _ => True
  | owed, ask (.inl q) k => owed = none ∧ ∀ b, (k b).Reporting own leaf (some (q, b))
  | none, ask (.inr s) k => leaf s ∧ (k true).Reporting own leaf none
  | some (q, b), ask (.inr s) k => own q b s ∧ (k true).Reporting own leaf none

/-- The walk asks nothing. -/
def Walk.Silent : Walk ε Q α → Prop
  | ask _ _ => False
  | _ => True

section Reporting

variable {own : Q → Bool → S → Prop} {leaf : S → Prop}

theorem Walk.reporting_bind {o : Option (Q × Bool)} {w : Walk ε (Q ⊕ S) α} {k : α → Walk ε (Q ⊕ S) β}
    (hw : w.Reporting own leaf o) (hk : ∀ a, (k a).Reporting own leaf none) :
    (w >>= k).Reporting own leaf o := by
  induction w generalizing o with
  | done a =>
    obtain rfl : o = none := hw
    exact hk a
  | raise e => trivial
  | ask q k' ih =>
    rcases q with q | s
    · exact ⟨hw.1, fun b => ih b (hw.2 b)⟩
    · rcases o with _ | ⟨q, b⟩
      · exact ⟨hw.1, ih true hw.2⟩
      · exact ⟨hw.1, ih true hw.2⟩

theorem Walk.reporting_ite {p : Prop} [Decidable p] {w w' : Walk ε (Q ⊕ S) α}
    (hw : w.Reporting own leaf none) (hw' : w'.Reporting own leaf none) :
    (if p then w else w').Reporting own leaf none := by
  split
  · exact hw
  · exact hw'

theorem Walk.reporting_report {s : S} (hs : leaf s) : (report s : Walk ε (Q ⊕ S) Unit).Reporting own leaf none :=
  ⟨hs, rfl⟩

theorem Walk.reporting_reportIf {p : Bool} {s : S} (hs : leaf s) :
    (reportIf p s : Walk ε (Q ⊕ S) Unit).Reporting own leaf none := by
  cases p
  · rfl
  · exact reporting_report hs

theorem Walk.reporting_embed {w : Walk ε Q α} (h : w.Silent) :
    (w.embed : Walk ε (Q ⊕ S) α).Reporting own leaf none := by
  cases w with
  | done a => rfl
  | raise e => trivial
  | ask q k => cases h

theorem Walk.reporting_lift (x : Except ε α) : (lift x : Walk ε (Q ⊕ S) α).Reporting own leaf none := by
  cases x
  · trivial
  · rfl

/-- A loop reports if the body does for every row. -/
theorem Walk.reporting_any {ρ : Type} {rows : List ρ} {f : ρ → Walk ε (Q ⊕ S) Bool}
    (h : ∀ r ∈ rows, (f r).Reporting own leaf none) : (any rows f).Reporting own leaf none := by
  induction rows with
  | nil => rfl
  | cons r rows ih =>
    rw [any]
    refine reporting_bind (h r List.mem_cons_self) fun b => reporting_ite rfl ?_
    exact ih fun r' hr' => h r' (List.mem_cons_of_mem r hr')

theorem Walk.silent_lift (x : Except ε α) : (lift x : Walk ε Q α).Silent := by
  cases x <;> trivial

theorem Walk.silent_bind {w : Walk ε Q α} {k : α → Walk ε Q β} (hw : w.Silent) (hk : ∀ a, (k a).Silent) :
    (w >>= k).Silent := by
  cases w with
  | done a => exact hk a
  | raise e => trivial
  | ask q k => cases hw

theorem Walk.silent_any {ρ : Type} {rows : List ρ} {f : ρ → Walk ε Q Bool} (h : ∀ r, (f r).Silent) :
    (any rows f).Silent := by
  induction rows with
  | nil => trivial
  | cons r rows ih =>
    rw [any]
    refine silent_bind (h r) fun b => ?_
    cases b
    · exact ih
    · trivial

end Reporting

/-! ## The trees of a reporting search -/

section Spec

variable {site : Q → K} {cut : ℕ → Q → S} {body : ℕ → Q → Walk ε (Q ⊕ S) Bool} {own : Q → Bool → S → Prop}
  {leaf : S → Prop} {depth : S → ℕ}

/-- The children of a step are the trees of the call that it reports, if it reports one. -/
def OwnCall (site : Q → K) (cut : ℕ → Q → S) (body : ℕ → Q → Walk ε (Q ⊕ S) Bool) (own : Q → Bool → S → Prop)
    (leaf : S → Prop) (depth : S → ℕ) (s : S) (cs : List (CallTree S)) : Prop :=
  (leaf s ∧ cs = []) ∨
    ∃ q b f P, own q b s ∧ callForest site cut body f (depth s + 1) P q = .ok (b, cs)

/-- What holds of the trees of a call at depth `d`. -/
structure Grown (site : Q → K) (cut : ℕ → Q → S) (body : ℕ → Q → Walk ε (Q ⊕ S) Bool) (own : Q → Bool → S → Prop)
    (leaf : S → Prop) (depth : S → ℕ) (d : ℕ) (ts : List (CallTree S)) : Prop where
  leveled : Leveled depth d ts
  every : Every (OwnCall site cut body own leaf depth) ts

theorem Grown.append {d : ℕ} {ts us : List (CallTree S)} (h : Grown site cut body own leaf depth d ts)
    (h' : Grown site cut body own leaf depth d us) : Grown site cut body own leaf depth d (ts ++ us) :=
  ⟨leveled_append.mpr ⟨h.leveled, h'.leveled⟩, every_append.mpr ⟨h.every, h'.every⟩⟩

/-- One more tree, of a step whose children are the trees of a call one level deeper. -/
theorem Grown.singleton {s : S} {cs : List (CallTree S)} (h : Grown site cut body own leaf depth (depth s + 1) cs)
    (hown : OwnCall site cut body own leaf depth s cs) :
    Grown site cut body own leaf depth (depth s) [.node s cs] :=
  ⟨⟨⟨rfl, h.leveled⟩, trivial⟩, ⟨⟨hown, h.every⟩, trivial⟩⟩

theorem Grown.nil {d : ℕ} : Grown site cut body own leaf depth d [] := ⟨trivial, trivial⟩

/-- The pending trees are those of the call whose answer is owed. -/
def Owes (site : Q → K) (cut : ℕ → Q → S) (body : ℕ → Q → Walk ε (Q ⊕ S) Bool) (d : ℕ) :
    Option (Q × Bool) → List (CallTree S) → Prop
  | none, ts => ts = []
  | some (q, b), ts => ∃ f P, callForest site cut body f (d + 1) P q = .ok (b, ts)

/-- A walk that reports keeps the trees grown, and owes nothing in the end. -/
theorem Walk.Reporting.run {d f : ℕ} {P : List Q}
    (hcall : ∀ q b ts, callForest site cut body f (d + 1) P q = .ok (b, ts) →
      Grown site cut body own leaf depth (d + 1) ts)
    {w : Walk ε (Q ⊕ S) α} {owed : Option (Q × Bool)}
    (hw : w.Reporting (fun q b s => own q b s ∧ depth s = d) (fun s => leaf s ∧ depth s = d) owed)
    {st st' : Growth S} {a : α} (htrees : Grown site cut body own leaf depth d st.trees)
    (hpending : Grown site cut body own leaf depth (d + 1) st.pending)
    (howed : Owes site cut body d owed st.pending)
    (hrun : w.run (Growth.answer (callForest site cut body f (d + 1) P)) st = .ok (a, st')) :
    Grown site cut body own leaf depth d st'.trees ∧ st'.pending = [] := by
  induction w generalizing owed st with
  | done a' =>
    cases hrun
    obtain rfl : owed = none := hw
    exact ⟨htrees, howed⟩
  | raise e => cases hrun
  | ask q k ih =>
    rw [Walk.run] at hrun
    rcases q with q | s
    · obtain ⟨rfl, hw⟩ := hw
      cases hanswer : callForest site cut body f (d + 1) P q with
      | error e =>
        rw [Growth.answer, hanswer] at hrun
        cases hrun
      | ok r =>
        obtain ⟨b, ts⟩ := r
        rw [Growth.answer, hanswer] at hrun
        have hnone : st.pending = [] := howed
        have hts : (st.called ts).pending = ts := by rw [Growth.called, hnone, List.nil_append]
        refine @ih b (some (q, b)) (hw b) (st.called ts) htrees ?_ ?_ hrun
        · rw [hts]
          exact hcall q b ts hanswer
        · rw [hts]
          exact ⟨f, P, hanswer⟩
    · rw [Growth.answer] at hrun
      rcases owed with _ | ⟨q, b⟩
      · obtain ⟨⟨hleaf, hdepth⟩, hw⟩ := hw
        subst hdepth
        exact @ih true none hw (st.reported s) (htrees.append (hpending.singleton (.inl ⟨hleaf, howed⟩)))
          Grown.nil rfl hrun
      · obtain ⟨⟨hown, hdepth⟩, hw⟩ := hw
        subst hdepth
        obtain ⟨f', P', hforest⟩ := howed
        have hreported : OwnCall site cut body own leaf depth s st.pending :=
          .inr ⟨q, b, f', P', hown, hforest⟩
        exact @ih true none hw (st.reported s) (htrees.append (hpending.singleton hreported)) Grown.nil rfl hrun

/-- **The trees of a search**: those of a call at depth `d` start at that depth, and the children of a step are
the trees of the call that it reports. -/
theorem callForest_spec
    (hbody : ∀ d q, (body d q).Reporting (fun q b s => own q b s ∧ depth s = d) (fun s => leaf s ∧ depth s = d) none)
    (hcut : ∀ d q, leaf (cut d q) ∧ depth (cut d q) = d) {f d : ℕ} {P : List Q} {q : Q} {b : Bool}
    {ts : List (CallTree S)} (h : callForest site cut body f d P q = .ok (b, ts)) :
    Grown site cut body own leaf depth d ts := by
  induction f generalizing d P q b ts with
  | zero => cases h
  | succ f ih =>
    rw [callForest] at h
    split at h
    · cases h
      obtain ⟨hleaf, hdepth⟩ := hcut d q
      conv => arg 7; rw [← hdepth]
      exact Grown.nil.singleton (.inl ⟨hleaf, rfl⟩)
    · cases hrun : (body d q).run (Growth.answer (callForest site cut body f (d + 1) (q :: P)))
          ⟨[], []⟩ with
      | error e =>
        rw [hrun] at h
        cases h
      | ok r =>
        obtain ⟨b', st⟩ := r
        rw [hrun] at h
        cases h
        have hnone : Owes site cut body d none ([] : List (CallTree S)) := rfl
        obtain ⟨htrees, hpending⟩ := (hbody d q).run (fun q' b ts => ih) Grown.nil Grown.nil hnone hrun
        show Grown site cut body own leaf depth d (st.trees ++ st.pending)
        rw [hpending, List.append_nil]
        exact htrees

end Spec

end Search

end Resolution
