import Mathlib.Data.Finset.Card
import Mathlib.Logic.Relation
import PgAuthz.Resolution.Walk

/-!
# Depth-first search with a cycle cut

A question is decided by running its body, whose own questions are decided in turn below a path of
the questions still open. A question whose site is already on the path is cut: it is answered
false. The path compares sites, which may forget part of a question; a cut is proper when the
question itself, not only its site, is on the path.

## Main definitions

* `search site body f P q`: the search for `q` below the path `P`, at most `f` levels deep
* `plain body f q`: the same recursion without the cut
* `Settles body q b`: the recursion without the cut ends with `b`
* `Visit site body root P q`: the search from `root` reaches `q` below the path `P`
* `ProperCuts site body root`: every cut of the search from `root` is proper

## Main results

* `search_refines`: more levels keep every result except the depth error
* `search_eq_of_settles`: with proper cuts, a settled question has its settled value at every visit
* `search_ne_depth`: on finitely many sites, enough levels never raise the depth error
* `search_agree`: bodies that agree on every answer function give searches that agree
-/

namespace Resolution

open Relation (ReflTransGen TransGen)
open Walk (Refines)

variable {ε Q K : Type} [DecidableEq K]

/-! ## The search and the recursion without the cut -/

/-- The search for `q` below the open questions `P`, at most `f` levels deep. -/
def search (site : Q → K) (body : Q → Walk ε Q Bool) : ℕ → List Q → Q → Except (Halt ε) Bool
  | 0, _, _ => .error .depth
  | f + 1, P, q =>
    if site q ∈ P.map site then .ok false else (body q).eval (search site body f (q :: P))

/-- The recursion without the cut, at most `f` levels deep. -/
def plain (body : Q → Walk ε Q Bool) : ℕ → Q → Except (Halt ε) Bool
  | 0, _ => .error .depth
  | f + 1, q => (body q).eval (plain body f)

/-- The recursion without the cut ends with `b`. -/
def Settles (body : Q → Walk ε Q Bool) (q : Q) (b : Bool) : Prop :=
  ∃ f, plain body f q = .ok b

/-- The search for `q` below `P` ends with `b`. -/
def Decides (site : Q → K) (body : Q → Walk ε Q Bool) (P : List Q) (q : Q) (b : Bool) : Prop :=
  ∃ f, search site body f P q = .ok b

/-- The search from `root` reaches `q` below the path `P`. -/
inductive Visit (site : Q → K) (body : Q → Walk ε Q Bool) (root : Q) : List Q → Q → Prop
  | root : Visit site body root [] root
  | step {P : List Q} {p q : Q} (hp : Visit site body root P p) (hs : site p ∉ P.map site)
      (hq : (body p).Asked (Decides site body (p :: P)) q) : Visit site body root (p :: P) q

/-- Every cut of the search from `root` is at a question that is itself on the path. -/
def ProperCuts (site : Q → K) (body : Q → Walk ε Q Bool) (root : Q) : Prop :=
  ∀ P q, Visit site body root P q → site q ∈ P.map site → q ∈ P

/-- `q'` is asked by the settled question `q` along settled answers. -/
def Below (body : Q → Walk ε Q Bool) (q q' : Q) : Prop :=
  (∃ b, Settles body q b) ∧ (body q).Asked (Settles body) q'

section Fuel

variable {site : Q → K} {body : Q → Walk ε Q Bool}

theorem search_cut {P : List Q} {q : Q} (hq : site q ∈ P.map site) (f : ℕ) :
    search site body (f + 1) P q = .ok false := by
  rw [search, if_pos hq]

theorem search_open {P : List Q} {q : Q} (hq : site q ∉ P.map site) (f : ℕ) :
    search site body (f + 1) P q = (body q).eval (search site body f (q :: P)) := by
  rw [search, if_neg hq]

theorem plain_refines {f g : ℕ} (hfg : f ≤ g) (q : Q) :
    Refines (plain body f q) (plain body g q) := by
  induction f generalizing g q with
  | zero => exact fun h => absurd rfl h
  | succ f ih =>
    obtain ⟨g, rfl⟩ := Nat.exists_eq_add_of_le' (Nat.lt_of_lt_of_le f.succ_pos hfg)
    exact Walk.eval_mono fun q' _ => ih (Nat.le_of_succ_le_succ hfg) q'

/-- More levels keep every result except the depth error. -/
theorem search_refines {f g : ℕ} (hfg : f ≤ g) (P : List Q) (q : Q) :
    Refines (search site body f P q) (search site body g P q) := by
  induction f generalizing g P q with
  | zero => exact fun h => absurd rfl h
  | succ f ih =>
    obtain ⟨g, rfl⟩ := Nat.exists_eq_add_of_le' (Nat.lt_of_lt_of_le f.succ_pos hfg)
    by_cases hq : site q ∈ P.map site
    · rw [search_cut hq, search_cut hq]
      exact fun _ => rfl
    · rw [search_open hq, search_open hq]
      exact Walk.eval_mono fun q' _ => ih (Nat.le_of_succ_le_succ hfg) (q :: P) q'

theorem Settles.unique {q : Q} {b c : Bool} (hb : Settles body q b) (hc : Settles body q c) :
    b = c := by
  obtain ⟨f, hf⟩ := hb
  obtain ⟨g, hg⟩ := hc
  have hf' := (plain_refines (le_max_left f g) q).ok hf
  have hg' := (plain_refines (le_max_right f g) q).ok hg
  exact Except.ok.inj (hf'.symm.trans hg')

/-- Two results of the search for one question agree unless one is the depth error. -/
theorem search_unique {P : List Q} {q : Q} {b : Bool} (hb : Decides site body P q b) {f : ℕ}
    (hf : search site body f P q ≠ .error .depth) : search site body f P q = .ok b := by
  obtain ⟨g, hg⟩ := hb
  have hg' := (search_refines (le_max_right f g) P q).ok hg
  have hf' := search_refines (le_max_left f g) P q hf
  exact hf'.symm.trans hg'

theorem Decides.unique {P : List Q} {q : Q} {b c : Bool} (hb : Decides site body P q b)
    (hc : Decides site body P q c) : b = c := by
  obtain ⟨f, hf⟩ := hc
  exact Except.ok.inj ((search_unique hb (by simp [hf])).symm.trans hf)

end Fuel

/-! ## Settled questions -/

section Settled

variable {site : Q → K} {body : Q → Walk ε Q Bool}

/-- The questions asked along settled answers are decided one level below. -/
theorem plain_of_asked {f : ℕ} {w : Walk ε Q Bool} {b : Bool} {q : Q}
    (hw : w.eval (plain body f) = .ok b) (hq : w.Asked (Settles body) q) :
    ∃ c, plain body f q = .ok c := by
  induction hq with
  | here q k =>
    obtain ⟨c, hc, -⟩ := Walk.eval_ask_ok.mp hw
    exact ⟨c, hc⟩
  | there hb _ ih =>
    obtain ⟨c, hc, hw⟩ := Walk.eval_ask_ok.mp hw
    obtain rfl := hb.unique ⟨f, hc⟩
    exact ih hw

theorem Below.settles {q q' : Q} (hq : Below body q q') : ∃ c, Settles body q' c := by
  obtain ⟨⟨b, f, hf⟩, hq'⟩ := hq
  cases f with
  | zero => cases hf
  | succ f =>
    obtain ⟨c, hc⟩ := plain_of_asked hf hq'
    exact ⟨c, f, hc⟩

/-- Settled questions ask no infinite descent. -/
theorem below_wf (body : Q → Walk ε Q Bool) : WellFounded fun q' q => Below body q q' := by
  have hacc : ∀ f q b, plain body f q = .ok b → Acc (fun q' q => Below body q q') q := by
    intro f
    induction f with
    | zero => intro q b hb; cases hb
    | succ f ih =>
      intro q b hb
      refine ⟨q, fun q' hq' => ?_⟩
      obtain ⟨c, hc⟩ := plain_of_asked hb hq'.2
      exact ih q' c hc
  refine ⟨fun q => ⟨q, fun q' hq' => ?_⟩⟩
  obtain ⟨c, f, hc⟩ := hq'.settles
  exact hacc f q' c hc

theorem not_below_self {q : Q} : ¬ TransGen (Below body) q q := by
  have hwf : WellFounded (TransGen fun q' q => Below body q q') := (below_wf body).transGen
  intro hq
  have hq' : TransGen (fun q' q => Below body q q') q q := Relation.transGen_swap.mp hq
  exact hwf.asymmetric q q hq' hq'

theorem settles_of_reaches {q q' : Q} (hq : ReflTransGen (Below body) q q')
    (hs : ∃ b, Settles body q b) : ∃ b, Settles body q' b := by
  cases hq with
  | refl => exact hs
  | tail _ h => exact h.settles

/-- What a settled question does not reach, its own questions do not reach, nor do they reach it. -/
theorem unreached_cons {P : List Q} {q q' : Q} (hq : Below body q q')
    (hP : ∀ p ∈ P, ¬ ReflTransGen (Below body) q p) :
    ∀ p ∈ q :: P, ¬ ReflTransGen (Below body) q' p := by
  intro p hp hr
  rcases List.mem_cons.mp hp with rfl | hp
  · exact not_below_self (TransGen.head' hq hr)
  · exact hP p hp (ReflTransGen.head hq hr)

variable {root : Q}

/-- A visited settled question that reaches nothing on the path has its settled value. -/
theorem search_of_unreached (hC : ProperCuts site body root) {f : ℕ} {P : List Q} {q : Q}
    {b : Bool} (hv : Visit site body root P q) (hb : plain body f q = .ok b)
    (hP : ∀ p ∈ P, ¬ ReflTransGen (Below body) q p) : search site body f P q = .ok b := by
  induction f generalizing P q b with
  | zero => cases hb
  | succ f ih =>
    have hs : site q ∉ P.map site := fun h => hP q (hC P q hv h) .refl
    have hq : ∃ b, Settles body q b := ⟨b, f + 1, hb⟩
    rw [search_open hs]
    -- along the body, the answers of the search are the settled ones
    have hwalk : ∀ w : Walk ε Q Bool,
        (∀ q', w.Asked (Decides site body (q :: P)) q' → Visit site body root (q :: P) q') →
        (∀ q', w.Asked (Settles body) q' → Below body q q') →
        w.eval (plain body f) = .ok b → w.eval (search site body f (q :: P)) = .ok b := by
      intro w
      induction w with
      | done a => exact fun _ _ hw => hw
      | raise e => exact fun _ _ hw => hw
      | ask q' k ihw =>
        intro hvis hbel hw
        obtain ⟨c, hc, hw⟩ := Walk.eval_ask_ok.mp hw
        have hc' : search site body f (q :: P) q' = .ok c :=
          ih (hvis q' (.here q' k)) hc (unreached_cons (hbel q' (.here q' k)) hP)
        exact Walk.eval_ask_ok.mpr ⟨c, hc', ihw c (fun q'' h => hvis q'' (.there ⟨f, hc'⟩ h))
          (fun q'' h => hbel q'' (.there ⟨f, hc⟩ h)) hw⟩
    exact hwalk (body q) (fun q' h => .step hv hs h) (fun q' h => ⟨hq, h⟩) hb

/-- Below a settled question that reaches nothing on its path, the search asks along settled
answers. -/
theorem below_of_asked (hC : ProperCuts site body root) {P : List Q} {q q' : Q}
    (hv : Visit site body root P q) (hs : site q ∉ P.map site) (hq : ∃ b, Settles body q b)
    (hP : ∀ p ∈ P, ¬ ReflTransGen (Below body) q p)
    (hq' : (body q).Asked (Decides site body (q :: P)) q') : Below body q q' := by
  obtain ⟨b, f, hb⟩ := hq
  cases f with
  | zero => cases hb
  | succ f =>
    have hwalk : ∀ w : Walk ε Q Bool,
        (∀ r, w.Asked (Decides site body (q :: P)) r → Visit site body root (q :: P) r) →
        (∀ r, w.Asked (Settles body) r → Below body q r) →
        w.eval (plain body f) = .ok b → ∀ r, w.Asked (Decides site body (q :: P)) r →
        w.Asked (Settles body) r := by
      intro w
      induction w with
      | done a => exact fun _ _ _ r hr => absurd hr Walk.not_asked_done
      | raise e => exact fun _ _ _ r hr => nomatch hr
      | ask r k ihw =>
        intro hvis hbel hw r' hr'
        obtain ⟨d, hd, hw⟩ := Walk.eval_ask_ok.mp hw
        have hd' : search site body f (q :: P) r = .ok d :=
          search_of_unreached hC (hvis r (.here r k)) hd
            (unreached_cons (hbel r (.here r k)) hP)
        cases hr' with
        | here => exact .here r k
        | there hc hk =>
          obtain rfl := hc.unique ⟨f, hd'⟩
          exact .there ⟨f, hd⟩ (ihw _ (fun r'' h => hvis r'' (.there hc h))
            (fun r'' h => hbel r'' (.there ⟨f, hd⟩ h)) hw r' hk)
    have hset : ∃ b, Settles body q b := ⟨b, f + 1, hb⟩
    exact ⟨hset, hwalk (body q) (fun r h => .step hv hs h) (fun r h => ⟨hset, h⟩) hb q' hq'⟩

/-- A visited settled question reaches nothing on its path, and below a settled question
everything visited is settled. -/
theorem visit_settled (hC : ProperCuts site body root) {P : List Q} {q : Q}
    (hv : Visit site body root P q) :
    ((∃ b, Settles body q b) → ∀ p ∈ P, ¬ ReflTransGen (Below body) q p) ∧
      ∀ p ∈ P, (∃ b, Settles body p b) → ∃ b, Settles body q b := by
  induction hv with
  | root => simp
  | @step P p q hp hs hq ih =>
    have hbelow : (∃ b, Settles body p b) → Below body p q := fun h =>
      below_of_asked hC hp hs h (ih.1 h) hq
    -- a settled question on the path makes its last entry settled
    have hlast : ∀ r ∈ p :: P, (∃ b, Settles body r b) → ∃ b, Settles body p b := by
      intro r hr hset
      rcases List.mem_cons.mp hr with rfl | hr
      · exact hset
      · exact ih.2 r hr hset
    refine ⟨fun hset r hr hreach => ?_, fun r hr hset => (hbelow (hlast r hr hset)).settles⟩
    have hpset := hlast r hr (settles_of_reaches hreach hset)
    exact unreached_cons (hbelow hpset) (ih.1 hpset) r hr hreach

/-- **With proper cuts, a settled question has its settled value at every visit.** -/
theorem search_eq_of_settles (hC : ProperCuts site body root) {P : List Q} {q : Q} {b : Bool}
    (hv : Visit site body root P q) (hb : Settles body q b) : Decides site body P q b := by
  obtain ⟨f, hf⟩ := hb
  exact ⟨f, search_of_unreached hC hv hf ((visit_settled hC hv).1 ⟨b, f, hf⟩)⟩

end Settled

/-! ## Enough levels -/

section Finite

variable {site : Q → K} {body : Q → Walk ε Q Bool}

theorem eval_ne_depth {h : Q → Except (Halt ε) Bool} {w : Walk ε Q Bool}
    (hh : ∀ q, w.MayAsk q → h q ≠ .error .depth) : w.eval h ≠ .error .depth := by
  induction w with
  | done a => simp
  | raise e => simp
  | ask q k ih =>
    rw [Walk.eval_ask]
    have hq := hh q (.here q k)
    cases hb : h q with
    | error e => simpa [hb] using hq
    | ok b => exact ih b fun q' hq' => hh q' (.there trivial hq')

/-- **On finitely many sites, enough levels never raise the depth error.** -/
theorem search_ne_depth {U : Finset K}
    (hU : ∀ q q', site q ∈ U → (body q).MayAsk q' → site q' ∈ U) {f : ℕ} {P : List Q} {q : Q}
    (hq : site q ∈ U) (hP : (P.map site).Nodup) (hPU : ∀ k ∈ P.map site, k ∈ U)
    (hf : U.card + 1 ≤ f + P.length) : search site body f P q ≠ .error .depth := by
  induction f generalizing P q with
  | zero =>
    have hcard : (P.map site).toFinset.card ≤ U.card :=
      Finset.card_le_card fun k hk => hPU k (List.mem_toFinset.mp hk)
    rw [List.toFinset_card_of_nodup hP, List.length_map] at hcard
    omega
  | succ f ih =>
    by_cases hs : site q ∈ P.map site
    · simp [search_cut hs]
    · rw [search_open hs]
      refine eval_ne_depth fun q' hq' => ih (hU q q' hq hq') ?_ ?_ ?_
      · exact List.nodup_cons.mpr ⟨hs, hP⟩
      · intro k hk
        rcases List.mem_cons.mp hk with rfl | hk
        · exact hq
        · exact hPU k hk
      · simp only [List.length_cons]
        omega

end Finite

/-! ## Bodies that agree -/

/-- Bodies that agree whenever both return, on every answer function, give searches that agree
whenever both return. -/
theorem search_agree {site : Q → K} {body body' : Q → Walk ε Q Bool}
    (hbody : ∀ (ans : Q → Bool) q b c, (body q).eval (fun r => .ok (ans r)) = .ok b →
      (body' q).eval (fun r => .ok (ans r)) = .ok c → b = c)
    {f g : ℕ} {P : List Q} {q : Q} {b c : Bool} (hb : search site body f P q = .ok b)
    (hc : search site body' g P q = .ok c) : b = c := by
  induction f generalizing g P q b c with
  | zero => cases hb
  | succ f ih =>
    cases g with
    | zero => cases hc
    | succ g =>
      by_cases hs : site q ∈ P.map site
      · rw [search_cut hs] at hb hc
        exact Except.ok.inj (hb.symm.trans hc)
      · rw [search_open hs] at hb hc
        -- one answer function that both searches agree with where they return
        classical
        let ans : Q → Bool := fun r =>
          decide (search site body f (q :: P) r = .ok true ∨
            search site body' g (q :: P) r = .ok true)
        refine hbody ans q b c (Walk.eval_congr_ok hb ?_) (Walk.eval_congr_ok hc ?_)
        · intro r d _ hd
          cases d with
          | true => simp [ans, hd]
          | false =>
            have : search site body' g (q :: P) r ≠ .ok true := fun h => by
              simpa using ih hd h
            simp [ans, hd, this]
        · intro r d _ hd
          cases d with
          | true => simp [ans, hd]
          | false =>
            have : search site body f (q :: P) r ≠ .ok true := fun h => by
              simpa using ih h hd
            simp [ans, hd, this]

end Resolution
