import Mathlib.Tactic.Common

/-!
# Programs that ask for decisions

A walk is a program that may ask for boolean decisions: it returns a value, raises an error, or
asks and continues with the answer. A recursive decision procedure is a family of walks, one for
each question; what its questions mean is left to the interpreter. Two interpreters are used: one
answers from a function, the other threads a state through the answers.

## Main definitions

* `Walk ε Q α`: programs over the questions `Q` with the errors `ε`
* `Halt ε`: the ways an interpreted walk stops without a value
* `Walk.eval h`, `Walk.run h`: a walk answered by `h`, without and with a state
* `Walk.any rows f`: a loop that stops at the first row whose body returns true
* `Walk.Returns R w a`: `w` returns `a` along answers that satisfy `R`
* `Walk.Asked R w q`: `w` asks `q` when the answers so far satisfy `R`
* `Walk.Extends w w'`: `w'` returns whatever `w` returns

## Main results

* `Walk.returns_any_iff`: a loop decides the existence of a row
* `Walk.eval_mono`: better answers keep every result except the depth error
* `Walk.run_returns`: a threaded walk returns along the answers it was given
-/

namespace Resolution

/-- A program that asks for decisions: it returns, raises, or asks and continues. -/
inductive Walk (ε Q α : Type) : Type
  | done (a : α)
  | raise (e : ε)
  | ask (q : Q) (k : Bool → Walk ε Q α)

/-- Why an interpreted walk has no value: the depth bound was exceeded, the memo is full, or the
walk raised an error of its own. -/
inductive Halt (ε : Type) : Type
  | depth
  | full
  | raised (e : ε)
deriving DecidableEq, Repr

namespace Walk

variable {ε Q σ α β ρ : Type}

/-- Sequencing: continue with the value of the first walk. -/
def bind : Walk ε Q α → (α → Walk ε Q β) → Walk ε Q β
  | done a, f => f a
  | raise e, _ => raise e
  | ask q k, f => ask q fun b => (k b).bind f

instance : Monad (Walk ε Q) where
  pure := done
  bind := bind

/-- A fallible value as a walk that asks nothing. -/
def lift : Except ε α → Walk ε Q α
  | .ok a => done a
  | .error e => raise e

/-- The walk that asks `q` and returns the answer. -/
def query (q : Q) : Walk ε Q Bool := ask q done

/-- The loop over `rows` that returns true at the first row whose body returns true. -/
def any : List ρ → (ρ → Walk ε Q Bool) → Walk ε Q Bool
  | [], _ => done false
  | r :: rows, f => do
    if ← f r then done true else any rows f

theorem orElse_congr {x x' y y' : Walk ε Q Bool} (hx : x = x') (hy : y = y') :
    (do if ← x then done true else y) = (do if ← x' then done true else y') := by
  rw [hx, hy]

theorem any_congr {rows : List ρ} {f f' : ρ → Walk ε Q Bool} (h : ∀ r ∈ rows, f r = f' r) :
    any rows f = any rows f' := by
  induction rows with
  | nil => rfl
  | cons r rows ih =>
    rw [any, any, h r List.mem_cons_self, ih fun r' hr' => h r' (List.mem_cons_of_mem r hr')]

@[simp] theorem pure_eq (a : α) : (pure a : Walk ε Q α) = done a := rfl

@[simp] theorem bind_done (a : α) (f : α → Walk ε Q β) : (done a >>= f) = f a := rfl

@[simp] theorem bind_raise (e : ε) (f : α → Walk ε Q β) : (raise e >>= f) = raise e := rfl

@[simp] theorem bind_ask (q : Q) (k : Bool → Walk ε Q α) (f : α → Walk ε Q β) :
    (ask q k >>= f) = ask q fun b => k b >>= f := rfl

/-! ## Answers from a function -/

/-- The walk answered by `h`. -/
def eval (h : Q → Except (Halt ε) Bool) : Walk ε Q α → Except (Halt ε) α
  | done a => .ok a
  | raise e => .error (.raised e)
  | ask q k => match h q with
    | .ok b => (k b).eval h
    | .error e => .error e

variable {h h' : Q → Except (Halt ε) Bool}

@[simp] theorem eval_done (a : α) : (done a : Walk ε Q α).eval h = .ok a := rfl

@[simp] theorem eval_raise (e : ε) :
    (raise e : Walk ε Q α).eval h = .error (.raised e) := rfl

theorem eval_ask (q : Q) (k : Bool → Walk ε Q α) :
    (ask q k).eval h = match h q with
      | .ok b => (k b).eval h
      | .error e => .error e := by
  rw [eval]

theorem eval_ask_ok {q : Q} {k : Bool → Walk ε Q α} {a : α} :
    (ask q k).eval h = .ok a ↔ ∃ b, h q = .ok b ∧ (k b).eval h = .ok a := by
  rw [eval_ask]
  cases h q <;> simp

/-- The results `x` may have once the answers improve: a depth error may become anything. -/
def Refines {γ : Type} (x y : Except (Halt ε) γ) : Prop :=
  x ≠ .error .depth → y = x

theorem Refines.ok {γ : Type} {x y : Except (Halt ε) γ} (hxy : Refines x y) {c : γ}
    (hx : x = .ok c) : y = .ok c := by
  subst hx
  exact hxy (by simp)

/-! ## What a walk returns -/

/-- `w` returns `a` along answers that satisfy `R`. -/
inductive Returns (R : Q → Bool → Prop) : Walk ε Q α → α → Prop
  | done (a : α) : Returns R (done a) a
  | ask {q : Q} {k : Bool → Walk ε Q α} {b : Bool} {a : α} (hb : R q b) (hk : Returns R (k b) a) :
      Returns R (ask q k) a

section Returns

variable {R : Q → Bool → Prop}

theorem eval_ok_iff {w : Walk ε Q α} {a : α} :
    w.eval h = .ok a ↔ w.Returns (fun q b => h q = .ok b) a := by
  constructor
  · intro hw
    induction w with
    | done a' =>
      cases hw
      exact .done a
    | raise e => cases hw
    | ask q k ih =>
      obtain ⟨b, hb, hw⟩ := eval_ask_ok.mp hw
      exact .ask hb (ih b hw)
  · intro hw
    induction hw with
    | done a => rfl
    | ask hb _ ih => exact eval_ask_ok.mpr ⟨_, hb, ih⟩

theorem returns_done {a a' : α} (hw : (done a : Walk ε Q α).Returns R a') : a' = a := by
  cases hw
  rfl

theorem returns_bind {w : Walk ε Q α} {f : α → Walk ε Q β} {b : β}
    (hw : (w >>= f).Returns R b) : ∃ a, w.Returns R a ∧ (f a).Returns R b := by
  induction w with
  | done a => exact ⟨a, .done a, hw⟩
  | raise e => cases hw
  | ask q k ih =>
    cases hw with
    | ask hb hk =>
      obtain ⟨a, ha, hf⟩ := ih _ hk
      exact ⟨a, .ask hb ha, hf⟩

theorem returns_lift {x : Except ε α} {a : α} (hw : (lift x : Walk ε Q α).Returns R a) :
    x = .ok a := by
  cases x with
  | ok a' => rw [returns_done hw]
  | error e => cases hw

theorem returns_query {q : Q} {b : Bool} (hw : (query q : Walk ε Q Bool).Returns R b) : R q b := by
  cases hw with
  | ask hb hk => rwa [returns_done hk]

/-- A walk that returns true if `x` does and continues with `y` otherwise decides the
disjunction. -/
theorem returns_orElse_iff {x y : Walk ε Q Bool} {P P' : Prop} {b : Bool}
    (hx : x.Returns R b → (b = true ↔ P)) (hy : y.Returns R b → (b = true ↔ P'))
    (hw : (x >>= fun c => if c = true then pure true else y).Returns R b) :
    b = true ↔ P ∨ P' := by
  obtain ⟨c, hc, hw⟩ := returns_bind hw
  cases c with
  | true =>
    obtain rfl := returns_done hw
    simp [(hx hc).mp rfl]
  | false =>
    have hy' := hy hw
    cases b with
    | true => simp [hy'.mp rfl]
    | false =>
      have hP : ¬ P := fun h => Bool.false_ne_true ((hx hc).mpr h)
      simpa [hP] using hy'

/-- A loop decides whether some row satisfies what its body decides. -/
theorem returns_any_iff {rows : List ρ} {f : ρ → Walk ε Q Bool} {P : ρ → Prop} {b : Bool}
    (hP : ∀ r ∈ rows, (f r).Returns R b → (b = true ↔ P r))
    (hw : (any rows f).Returns R b) : b = true ↔ ∃ r ∈ rows, P r := by
  induction rows with
  | nil =>
    obtain rfl := returns_done hw
    simp
  | cons r rows ih =>
    rw [returns_orElse_iff (hP r (by simp)) (ih fun r' hr' => hP r' (by simp [hr'])) hw]
    simp

end Returns

/-! ## Walks that raise less -/

/-- `w'` returns whatever `w` returns, and may return where `w` raises. -/
def Extends (w w' : Walk ε Q α) : Prop := ∀ R a, w.Returns R a → w'.Returns R a

theorem Extends.refl (w : Walk ε Q α) : Extends w w := fun _ _ h => h

theorem returns_bind_of {R : Q → Bool → Prop} {w : Walk ε Q α} {f : α → Walk ε Q β} {a : α} {b : β}
    (hw : w.Returns R a) (hf : (f a).Returns R b) : (w >>= f).Returns R b := by
  induction hw with
  | done a => exact hf
  | ask hb _ ih => exact .ask hb (ih hf)

theorem extends_bind {w w' : Walk ε Q α} {f f' : α → Walk ε Q β} (hw : Extends w w')
    (hf : ∀ a, Extends (f a) (f' a)) : Extends (w >>= f) (w' >>= f') := by
  intro R b hb
  obtain ⟨a, ha, hb⟩ := returns_bind hb
  exact returns_bind_of (hw R a ha) (hf a R b hb)

theorem extends_lift {x y : Except ε α} (h : ∀ a, x = .ok a → y = .ok a) :
    Extends (lift x : Walk ε Q α) (lift y) := by
  intro R a ha
  rw [h a (returns_lift ha)]
  exact .done a

theorem extends_orElse {x x' y y' : Walk ε Q Bool} (hx : Extends x x') (hy : Extends y y') :
    Extends (x >>= fun c => if c = true then pure true else y)
      (x' >>= fun c => if c = true then pure true else y') := by
  apply extends_bind hx
  intro c
  cases c with
  | true => exact .refl _
  | false => exact hy

theorem extends_any {rows : List ρ} {f f' : ρ → Walk ε Q Bool} (h : ∀ r, Extends (f r) (f' r)) :
    Extends (any rows f) (any rows f') := by
  induction rows with
  | nil => exact .refl _
  | cons r rows ih => exact extends_orElse (h r) ih

/-! ## The questions a walk asks -/

/-- `w` asks `q` when every answer before it satisfies `R`. -/
inductive Asked (R : Q → Bool → Prop) : Walk ε Q α → Q → Prop
  | here (q : Q) (k : Bool → Walk ε Q α) : Asked R (ask q k) q
  | there {q q' : Q} {k : Bool → Walk ε Q α} {b : Bool} (hb : R q b) (hk : Asked R (k b) q') :
      Asked R (ask q k) q'

/-- The questions a walk may ask, whatever the answers. -/
abbrev MayAsk (w : Walk ε Q α) (q : Q) : Prop := w.Asked (fun _ _ => True) q

theorem Asked.mono {R R' : Q → Bool → Prop} {w : Walk ε Q α} {q : Q} (hq : w.Asked R q)
    (hR : ∀ q b, R q b → R' q b) : w.Asked R' q := by
  induction hq with
  | here q k => exact .here q k
  | there hb _ ih => exact .there (hR _ _ hb) ih

theorem Asked.mayAsk {R : Q → Bool → Prop} {w : Walk ε Q α} {q : Q} (hq : w.Asked R q) :
    w.MayAsk q :=
  hq.mono fun _ _ _ => trivial

theorem not_asked_done {R : Q → Bool → Prop} {a : α} {q : Q} :
    ¬ (done a : Walk ε Q α).Asked R q := by
  intro hq
  cases hq

theorem not_asked_lift {R : Q → Bool → Prop} {x : Except ε α} {q : Q} :
    ¬ (lift x : Walk ε Q α).Asked R q := by
  intro hq
  cases x <;> cases hq

theorem mayAsk_query {q q' : Q} (hq : (query q : Walk ε Q Bool).MayAsk q') : q' = q := by
  cases hq with
  | here => rfl
  | there _ hk => exact absurd hk not_asked_done

theorem mayAsk_bind {w : Walk ε Q α} {f : α → Walk ε Q β} {q : Q} (hq : (w >>= f).MayAsk q) :
    w.MayAsk q ∨ ∃ a, (f a).MayAsk q := by
  induction w with
  | done a => exact .inr ⟨a, hq⟩
  | raise e => cases hq
  | ask q' k ih =>
    cases hq with
    | here => exact .inl (.here _ _)
    | there _ hk =>
      rcases ih _ hk with h | h
      · exact .inl (.there trivial h)
      · exact .inr h

theorem mayAsk_orElse {x y : Walk ε Q Bool} {q : Q}
    (hq : (x >>= fun c => if c = true then pure true else y).MayAsk q) :
    x.MayAsk q ∨ y.MayAsk q := by
  rcases mayAsk_bind hq with h | ⟨c, h⟩
  · exact .inl h
  · cases c with
    | true => exact absurd h not_asked_done
    | false => exact .inr h

theorem mayAsk_any {rows : List ρ} {f : ρ → Walk ε Q Bool} {q : Q} (hq : (any rows f).MayAsk q) :
    ∃ r ∈ rows, (f r).MayAsk q := by
  induction rows with
  | nil => exact absurd hq not_asked_done
  | cons r rows ih =>
    rcases mayAsk_orElse hq with hr | hr
    · exact ⟨r, by simp, hr⟩
    · obtain ⟨r', hr', hq'⟩ := ih hr
      exact ⟨r', by simp [hr'], hq'⟩

/-- Better answers to the questions asked keep the result, a depth error excepted. -/
theorem eval_mono {w : Walk ε Q α}
    (hh : ∀ q, w.Asked (fun q b => h q = .ok b) q → Refines (h q) (h' q)) :
    Refines (w.eval h) (w.eval h') := by
  induction w with
  | done a => exact fun _ => rfl
  | raise e => exact fun _ => rfl
  | ask q k ih =>
    have hq := hh q (.here q k)
    rw [eval_ask, eval_ask]
    cases hb : h q with
    | error e =>
      intro hne
      rw [hb] at hq
      rw [hq (by simpa using hne)]
    | ok b =>
      rw [hq.ok hb]
      exact ih b fun q' hq' => hh q' (.there hb hq')

/-- Answers that agree on the questions asked give the same value. -/
theorem eval_congr_ok {w : Walk ε Q α} {a : α} (hw : w.eval h = .ok a)
    (hh : ∀ q b, w.MayAsk q → h q = .ok b → h' q = .ok b) : w.eval h' = .ok a := by
  induction w with
  | done a => simpa using hw
  | raise e => simp at hw
  | ask q k ih =>
    obtain ⟨b, hb, hw⟩ := eval_ask_ok.mp hw
    exact eval_ask_ok.mpr ⟨b, hh q b (.here q k) hb,
      ih b hw fun q' c hq' => hh q' c (.there trivial hq')⟩

/-! ## The errors a walk raises -/

/-- The errors a walk may raise, whatever the answers. -/
inductive MayRaise : Walk ε Q α → ε → Prop
  | here (e : ε) : MayRaise (raise e) e
  | there {q : Q} {k : Bool → Walk ε Q α} {b : Bool} {e : ε} (hk : MayRaise (k b) e) :
      MayRaise (ask q k) e

theorem mayRaise_bind {w : Walk ε Q α} {f : α → Walk ε Q β} {e : ε} (he : (w >>= f).MayRaise e) :
    w.MayRaise e ∨ ∃ a, (f a).MayRaise e := by
  induction w with
  | done a => exact .inr ⟨a, he⟩
  | raise e' =>
    cases he
    exact .inl (.here e)
  | ask q k ih =>
    cases he with
    | there hk =>
      rcases ih _ hk with h | h
      · exact .inl (.there h)
      · exact .inr h

theorem mayRaise_orElse {x y : Walk ε Q Bool} {e : ε}
    (he : (x >>= fun c => if c = true then pure true else y).MayRaise e) :
    x.MayRaise e ∨ y.MayRaise e := by
  rcases mayRaise_bind he with h | ⟨c, h⟩
  · exact .inl h
  · cases c with
    | true => cases h
    | false => exact .inr h

theorem mayRaise_any {rows : List ρ} {f : ρ → Walk ε Q Bool} {e : ε}
    (he : (any rows f).MayRaise e) : ∃ r ∈ rows, (f r).MayRaise e := by
  induction rows with
  | nil => cases he
  | cons r rows ih =>
    rcases mayRaise_orElse he with hr | hr
    · exact ⟨r, by simp, hr⟩
    · obtain ⟨r', hr', he'⟩ := ih hr
      exact ⟨r', by simp [hr'], he'⟩

/-! ## Answers that thread a state -/

/-- The walk answered by `h`, which threads a state. -/
def run (h : Q → σ → Except (Halt ε) (Bool × σ)) : Walk ε Q α → σ → Except (Halt ε) (α × σ)
  | done a, s => .ok (a, s)
  | raise e, _ => .error (.raised e)
  | ask q k, s => match h q s with
    | .ok (b, s') => (k b).run h s'
    | .error e => .error e

/-- Answers that agree on the questions a walk may ask give the same threaded result. -/
theorem run_congr {h h' : Q → σ → Except (Halt ε) (Bool × σ)} {w : Walk ε Q α}
    (hh : ∀ q, w.MayAsk q → ∀ s, h' q s = h q s) (s : σ) : w.run h' s = w.run h s := by
  induction w generalizing s with
  | done a => rfl
  | raise e => rfl
  | ask q k ih =>
    rw [run, run, hh q (.here q k) s]
    rcases h q s with e | ⟨b, s'⟩
    · rfl
    · exact ih b (fun q' hq' => hh q' (.there trivial hq')) s'

/-- What a threaded walk returns, it returns along the answers it was given. -/
theorem run_returns {R : Q → Bool → Prop} {I : σ → Prop}
    {h : Q → σ → Except (Halt ε) (Bool × σ)} {w : Walk ε Q α}
    (hh : ∀ q, w.MayAsk q → ∀ s b s', I s → h q s = .ok (b, s') → R q b ∧ I s') {s s' : σ}
    {a : α} (hs : I s) (hw : w.run h s = .ok (a, s')) : w.Returns R a ∧ I s' := by
  induction w generalizing s with
  | done a' =>
    cases hw
    exact ⟨.done a, hs⟩
  | raise e => cases hw
  | ask q k ih =>
    rw [run] at hw
    rcases hq : h q s with e | ⟨b, s''⟩
    · rw [hq] at hw
      cases hw
    · rw [hq] at hw
      obtain ⟨hR, hI⟩ := hh q (.here q k) s b s'' hs hq
      obtain ⟨hret, hI'⟩ := ih b (fun q' hq' => hh q' (.there trivial hq')) hI hw
      exact ⟨.ask hR hret, hI'⟩

/-- A threaded walk fails with an error of an answer or with one of its own. -/
theorem run_error {h : Q → σ → Except (Halt ε) (Bool × σ)} {w : Walk ε Q α} {s : σ} {e : Halt ε}
    (he : w.run h s = .error e) :
    (∃ q s', h q s' = .error e) ∨ ∃ e', e = .raised e' ∧ w.MayRaise e' := by
  induction w generalizing s with
  | done a => cases he
  | raise e' => exact .inr ⟨e', by cases he; rfl, .here e'⟩
  | ask q k ih =>
    rw [run] at he
    rcases hq : h q s with e' | ⟨b, s'⟩
    · rw [hq] at he
      cases he
      exact .inl ⟨q, s, hq⟩
    · rw [hq] at he
      rcases ih b he with h | ⟨e', rfl, h⟩
      · exact .inl h
      · exact .inr ⟨e', rfl, .there h⟩

end Walk

end Resolution
