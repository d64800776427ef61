import PgAuthz.Resolution.CycleCut

/-!
# Memoised search with a cycle cut

The memoised search threads a memo and a counter of cuts. An answer is stored when the counter did
not move while it was computed, and a stored answer is returned without a search. With proper cuts
such an answer is settled, so the memo never changes a decision.

## Main definitions

* `Backend Q σ`: a memo held in a state `σ`, with a store that may be full
* `memoized B d q x`: the search `x` for `q` at depth `d`, with the memo around it
* `memoSearch B site body f d P q`: the memoised search for `q` below `P`
* `Trusted B body m`: every answer in the memo `m` is settled

## Main results

* `memoSearch_matches`: with proper cuts, the memoised search decides as the search does
* `memoSearch_decides`: on finitely many sites, whatever the memoised search returns is what the
  search returns with enough levels
* `memoSearch_supported`: a property that true answers pass on holds of every question answered
  true
* `memoSearch_of_unusable`: without a usable memo, the memoised search is the search
-/

namespace Resolution

open Walk (Refines)

variable {ε Q K σ : Type} [DecidableEq K]

/-- A memo of answers held in a state `σ`; it is used at the depths `usable`, and a store into a
full memo fails. -/
structure Backend (Q σ : Type) where
  usable : ℕ → Bool
  lookup : σ → Q → Option Bool
  store : σ → Q → Bool → Option σ

/-- After a store, an entry is an entry of before or the stored one. -/
structure Backend.Lawful (B : Backend Q σ) : Prop where
  lookup_store : ∀ {m m' : σ} {q : Q} {b : Bool}, B.store m q b = some m' →
    ∀ {r : Q} {c : Bool}, B.lookup m' r = some c → B.lookup m r = some c ∨ (r = q ∧ c = b)

/-- The search `x` for `q` at depth `d` with the memo around it: a stored answer is returned, and
an answer computed without a cut is stored. -/
def memoized (B : Backend Q σ) (d : ℕ) (q : Q)
    (x : σ × ℕ → Except (Halt ε) (Bool × (σ × ℕ))) : σ × ℕ → Except (Halt ε) (Bool × (σ × ℕ))
  | (m, c) =>
    if B.usable d then
      match B.lookup m q with
      | some b => .ok (b, (m, c))
      | none =>
        match x (m, c) with
        | .error e => .error e
        | .ok (b, (m', c')) =>
          if c' = c then
            match B.store m' q b with
            | some m'' => .ok (b, (m'', c'))
            | none => .error .full
          else .ok (b, (m', c'))
    else x (m, c)

/-- The memoised search for `q` at depth `d` below the open questions `P`, at most `f` levels
deep. A cut moves the counter. -/
def memoSearch (B : Backend Q σ) (site : Q → K) (body : Q → Walk ε Q Bool) :
    ℕ → ℕ → List Q → Q → σ × ℕ → Except (Halt ε) (Bool × (σ × ℕ))
  | 0, _, _, _, _ => .error .depth
  | f + 1, d, P, q, (m, c) =>
    if site q ∈ P.map site then .ok (false, (m, c + 1))
    else (body q).run
      (fun q' => memoized B (d + 1) q' (memoSearch B site body f (d + 1) (q :: P) q')) (m, c)

/-- Every answer in the memo is settled. -/
def Trusted (B : Backend Q σ) (body : Q → Walk ε Q Bool) (m : σ) : Prop :=
  ∀ q b, B.lookup m q = some b → Settles body q b

/-- The memoised result `x`, computed from the counter `c`, agrees with the result `y`: errors
are the same unless the memo is full, values are the same, the memo stays trusted, and a value
computed without a cut is settled in the sense of `S`. -/
def Matches (B : Backend Q σ) (body : Q → Walk ε Q Bool) (S : Bool → Prop) (c : ℕ)
    (x : Except (Halt ε) (Bool × (σ × ℕ))) (y : Except (Halt ε) Bool) : Prop :=
  match x with
  | .error .full => True
  | .error e => y = .error e
  | .ok (b, (m', c')) => y = .ok b ∧ Trusted B body m' ∧ c ≤ c' ∧ (c' = c → S b)

section Transparent

variable {B : Backend Q σ} {site : Q → K} {body : Q → Walk ε Q Bool} {root : Q}

/-- A trusted memo stays trusted when a settled answer is stored. -/
theorem Trusted.store (hB : B.Lawful) {m m' : σ} {q : Q} {b : Bool} (hm : Trusted B body m)
    (hq : Settles body q b) (hs : B.store m q b = some m') : Trusted B body m' := by
  intro r c hr
  rcases hB.lookup_store hs hr with h | ⟨rfl, rfl⟩
  · exact hm r c h
  · exact hq

/-- The memo around a search that matches matches as well. -/
theorem memoized_matches (hB : B.Lawful) (hC : ProperCuts site body root) {f d : ℕ} {P : List Q}
    {q : Q} (hv : Visit site body root P q) (hne : search site body f P q ≠ .error .depth)
    {x : σ × ℕ → Except (Halt ε) (Bool × (σ × ℕ))} {m : σ} {c : ℕ} (hm : Trusted B body m)
    (hx : Matches B body (Settles body q) c (x (m, c)) (search site body f P q)) :
    Matches B body (Settles body q) c (memoized B d q x (m, c)) (search site body f P q) := by
  by_cases hu : B.usable d
  · rw [memoized, if_pos hu]
    cases hl : B.lookup m q with
    | some b =>
      have hb : Settles body q b := hm q b hl
      exact ⟨search_unique (search_eq_of_settles hC hv hb) hne, hm, le_rfl, fun _ => hb⟩
    | none =>
      rcases hxe : x (m, c) with e | ⟨b, m', c'⟩
      · rw [hxe] at hx
        exact hx
      · rw [hxe] at hx
        obtain ⟨hy, hm', hcc, hset⟩ := hx
        by_cases hc : c' = c
        · cases hs : B.store m' q b with
          | none => simp [hc, hs, Matches]
          | some m'' =>
            simpa [hc, hs, Matches] using ⟨hy, hm'.store hB (hset hc) hs, hset hc⟩
        · simpa [hc, Matches] using ⟨hy, hm', hcc⟩
  · rw [memoized, if_neg hu]
    exact hx

/-- A walk whose memoised answers match the search matches the search. -/
theorem run_matches {f : ℕ} {P : List Q}
    {h : Q → σ × ℕ → Except (Halt ε) (Bool × (σ × ℕ))} {w : Walk ε Q Bool}
    (hh : ∀ q, w.Asked (Decides site body P) q → search site body f P q ≠ .error .depth →
      ∀ m c, Trusted B body m →
        Matches B body (Settles body q) c (h q (m, c)) (search site body f P q))
    (hne : w.eval (search site body f P) ≠ .error .depth) {m : σ} {c : ℕ}
    (hm : Trusted B body m) :
    Matches B body (fun b => ∃ n, w.eval (plain body n) = .ok b) c (w.run h (m, c))
      (w.eval (search site body f P)) := by
  induction w generalizing m c with
  | done a => exact ⟨rfl, hm, le_rfl, fun _ => ⟨0, rfl⟩⟩
  | raise e => exact rfl
  | ask q k ih =>
    rw [Walk.eval_ask] at hne ⊢
    have hneq : search site body f P q ≠ .error .depth := by
      intro heq
      simp [heq] at hne
    have hq := hh q (.here q k) hneq m c hm
    rw [Walk.run]
    rcases hr : h q (m, c) with e | ⟨b, m', c'⟩
    · rw [hr] at hq
      cases e with
      | full => trivial
      | depth => exact absurd hq hneq
      | raised e =>
        have hq' : search site body f P q = .error (.raised e) := hq
        rw [hq']
        exact rfl
    · rw [hr] at hq
      obtain ⟨hy, hm', hcc, hset⟩ := hq
      rw [hy] at hne ⊢
      have hrest := ih b (fun q' hq' => hh q' (.there ⟨f, hy⟩ hq')) hne (c := c') hm'
      show Matches B body _ c ((k b).run h (m', c')) _
      rcases hrun : (k b).run h (m', c') with e | ⟨b'', m'', c''⟩
      · rw [hrun] at hrest
        cases e with
        | full => trivial
        | depth => exact hrest
        | raised e => exact hrest
      · rw [hrun] at hrest
        obtain ⟨hy'', hm'', hcc'', hset''⟩ := hrest
        refine ⟨hy'', hm'', hcc.trans hcc'', fun hceq => ?_⟩
        -- no cut in the whole walk: none in its first answer and none in the rest
        obtain ⟨n, hn⟩ := hset (by omega)
        obtain ⟨n', hn'⟩ := hset'' (by omega)
        refine ⟨max n n', Walk.eval_ask_ok.mpr ⟨b, ?_, ?_⟩⟩
        · exact (plain_refines (le_max_left n n') q).ok hn
        · exact (Walk.eval_mono fun r _ => plain_refines (le_max_right n n') r).ok hn'

/-- **With proper cuts, the memoised search decides as the search does.** Where the search stays
within its levels, the memoised search has its result or finds the memo full; the memo it leaves
is trusted, and an answer computed without a cut is settled. -/
theorem memoSearch_matches (hB : B.Lawful) (hC : ProperCuts site body root) {f d : ℕ}
    {P : List Q} {q : Q} (hv : Visit site body root P q)
    (hne : search site body f P q ≠ .error .depth) {m : σ} {c : ℕ} (hm : Trusted B body m) :
    Matches B body (Settles body q) c (memoSearch B site body f d P q (m, c))
      (search site body f P q) := by
  induction f generalizing d P q m c with
  | zero => exact absurd rfl hne
  | succ f ih =>
    by_cases hs : site q ∈ P.map site
    · rw [search_cut hs, memoSearch, if_pos hs]
      exact ⟨rfl, hm, Nat.le_succ c, fun h => absurd h (Nat.succ_ne_self c)⟩
    · rw [search_open hs] at hne ⊢
      rw [memoSearch, if_neg hs]
      have hrun := run_matches (B := B) (w := body q)
        (h := fun q' => memoized B (d + 1) q' (memoSearch B site body f (d + 1) (q :: P) q'))
        (fun q' hq' hneq m c hm => memoized_matches hB hC (.step hv hs hq') hneq hm
          (ih (.step hv hs hq') hneq hm)) hne (m := m) (c := c) hm
      rcases hr : (body q).run
          (fun q' => memoized B (d + 1) q' (memoSearch B site body f (d + 1) (q :: P) q'))
          (m, c) with e | ⟨b, m', c'⟩
      · rw [hr] at hrun
        cases e <;> exact hrun
      · rw [hr] at hrun
        obtain ⟨hy, hm', hcc, hset⟩ := hrun
        refine ⟨hy, hm', hcc, fun hceq => ?_⟩
        obtain ⟨n, hn⟩ := hset hceq
        exact ⟨n + 1, hn⟩

end Transparent

/-! ## Answers that keep a property -/

section Supported

variable {B : Backend Q σ} {site : Q → K} {body body' : Q → Walk ε Q Bool}

/-- **Every question answered true has a property that true answers pass on**, whatever the
cuts. -/
theorem memoSearch_supported (hB : B.Lawful) {G : Q → Prop}
    (hbody : ∀ q, (body q).Returns (fun r b => b = true → G r) true → G q) {f d : ℕ}
    {P : List Q} {q : Q} {s s' : σ × ℕ} {b : Bool} (hs : ∀ r, B.lookup s.1 r = some true → G r)
    (hb : memoSearch B site body f d P q s = .ok (b, s')) :
    (b = true → G q) ∧ ∀ r, B.lookup s'.1 r = some true → G r := by
  induction f generalizing d P q s s' b with
  | zero => cases hb
  | succ f ih =>
    obtain ⟨m, c⟩ := s
    rw [memoSearch] at hb
    split at hb
    · cases hb
      exact ⟨fun h => absurd h Bool.false_ne_true, hs⟩
    · have hrun := Walk.run_returns (R := fun r b => b = true → G r)
        (I := fun s => ∀ r, B.lookup s.1 r = some true → G r) ?_ hs hb
      · refine ⟨?_, hrun.2⟩
        rintro rfl
        exact hbody q hrun.1
      · rintro q' - ⟨m₁, c₁⟩ b₁ s₁ hs₁ hq'
        rw [memoized] at hq'
        split at hq'
        · split at hq'
          · rename_i hhit
            cases hq'
            exact ⟨fun h => hs₁ q' (by rw [hhit, h]), hs₁⟩
          · split at hq'
            · cases hq'
            · rename_i hrun
              obtain ⟨hG, hs₂⟩ := ih hs₁ hrun
              split at hq'
              · split at hq'
                · rename_i hstore
                  cases hq'
                  refine ⟨hG, fun r hr => ?_⟩
                  rcases hB.lookup_store hstore hr with h | ⟨rfl, h⟩
                  · exact hs₂ r h
                  · exact hG h.symm
                · cases hq'
              · cases hq'
                exact ⟨hG, hs₂⟩
        · exact ih hs₁ hq'

/-- Bodies that are equal on a closed set of questions give equal memoised searches there. -/
theorem memoSearch_congr {C : Q → Prop} (hC : ∀ q r, C q → (body q).MayAsk r → C r)
    (hbody : ∀ q, C q → body' q = body q) {f d : ℕ} {P : List Q} {q : Q} (hq : C q) (s : σ × ℕ) :
    memoSearch B site body' f d P q s = memoSearch B site body f d P q s := by
  induction f generalizing d P q s with
  | zero => rfl
  | succ f ih =>
    obtain ⟨m, c⟩ := s
    rw [memoSearch, memoSearch, hbody q hq]
    split
    · rfl
    · refine Walk.run_congr (fun q' hq' s => ?_) (m, c)
      obtain ⟨m', c'⟩ := s
      rw [memoized, memoized]
      simp only [ih (hC q q' hq hq')]

end Supported

/-! ## More levels -/

section Fuel

variable {B : Backend Q σ} {site : Q → K} {body : Q → Walk ε Q Bool}

theorem memoized_refines {d : ℕ} {q : Q} {x y : σ × ℕ → Except (Halt ε) (Bool × (σ × ℕ))}
    (hxy : ∀ s, Refines (x s) (y s)) (s : σ × ℕ) :
    Refines (memoized B d q x s) (memoized B d q y s) := by
  obtain ⟨m, c⟩ := s
  by_cases hu : B.usable d
  · rw [memoized, memoized, if_pos hu, if_pos hu]
    intro hne
    cases hl : B.lookup m q with
    | some b => rfl
    | none =>
      have hxne : x (m, c) ≠ .error .depth := by
        intro hx
        simp [hl, hx] at hne
      rw [hxy (m, c) hxne]
  · rw [memoized, memoized, if_neg hu, if_neg hu]
    exact hxy (m, c)

theorem run_refines {α : Type} {h h' : Q → σ → Except (Halt ε) (Bool × σ)}
    (hh : ∀ q s, Refines (h q s) (h' q s)) (w : Walk ε Q α) (s : σ) :
    Refines (w.run h s) (w.run h' s) := by
  induction w generalizing s with
  | done a => exact fun _ => rfl
  | raise e => exact fun _ => rfl
  | ask q k ih =>
    have hq := hh q s
    rw [Walk.run, Walk.run]
    rcases hr : h q s with e | ⟨b, s'⟩
    · rw [hr] at hq
      intro hne
      rw [hq (by simpa using hne)]
    · rw [hq.ok hr]
      exact ih b s'

/-- More levels keep every memoised result except the depth error. -/
theorem memoSearch_refines {f g : ℕ} (hfg : f ≤ g) (d : ℕ) (P : List Q) (q : Q) (s : σ × ℕ) :
    Refines (memoSearch B site body f d P q s) (memoSearch B site body g d P q s) := by
  induction f generalizing g d P q s with
  | zero => exact fun h => absurd rfl h
  | succ f ih =>
    obtain ⟨g, rfl⟩ := Nat.exists_eq_add_of_le' (Nat.lt_of_lt_of_le f.succ_pos hfg)
    obtain ⟨m, c⟩ := s
    rw [memoSearch, memoSearch]
    split
    · exact fun _ => rfl
    · refine run_refines (fun q' s => memoized_refines (fun s => ?_) s) (body q) (m, c)
      exact ih (Nat.le_of_succ_le_succ hfg) (d + 1) (q :: P) q' s

/-- **On finitely many sites, whatever the memoised search returns, the search returns with enough
levels.** -/
theorem memoSearch_decides (hB : B.Lawful) {root : Q} (hC : ProperCuts site body root)
    {U : Finset K} (hU : ∀ q q', site q ∈ U → (body q).MayAsk q' → site q' ∈ U)
    (hroot : site root ∈ U) {f d : ℕ} {m m' : σ} {c c' : ℕ} (hm : Trusted B body m) {b : Bool}
    (hb : memoSearch B site body f d [] root (m, c) = .ok (b, (m', c'))) :
    Decides site body [] root b ∧ Trusted B body m' := by
  have hb' := (memoSearch_refines (B := B) (le_max_left f (U.card + 1)) d [] root (m, c)).ok hb
  have hne : search site body (max f (U.card + 1)) [] root ≠ .error .depth :=
    search_ne_depth hU hroot (by simp) (by simp) (by simp)
  have hmatch := memoSearch_matches hB hC (d := d) .root hne (c := c) hm
  rw [hb'] at hmatch
  exact ⟨⟨_, hmatch.1⟩, hmatch.2.1⟩

/-- A memoised search fails at the depth bound, at a full memo, or with an error of a body. -/
theorem memoSearch_error {f d : ℕ} {P : List Q} {q : Q} {s : σ × ℕ} {e : Halt ε}
    (he : memoSearch B site body f d P q s = .error e) :
    e = .depth ∨ (e = .full ∧ ∃ m r b, B.store m r b = none) ∨
      ∃ e' r, e = .raised e' ∧ (body r).MayRaise e' := by
  induction f generalizing d P q s e with
  | zero =>
    cases he
    exact .inl rfl
  | succ f ih =>
    obtain ⟨m, c⟩ := s
    rw [memoSearch] at he
    split at he
    · cases he
    · rcases Walk.run_error he with ⟨r, ⟨m', c'⟩, hr⟩ | ⟨e', rfl, h⟩
      · -- the memo around the answer fails only at a full store
        rw [memoized] at hr
        split at hr
        · split at hr
          · cases hr
          · split at hr
            · rename_i hx
              cases hr
              exact ih hx
            · split at hr
              · split at hr
                · cases hr
                · rename_i hstore
                  cases hr
                  exact .inr (.inl ⟨rfl, _, _, _, hstore⟩)
              · cases hr
        · exact ih hr
      · exact .inr (.inr ⟨e', q, rfl, h⟩)

/-- A walk whose threaded answers are those of a function is answered by that function. -/
theorem run_eq_eval {α : Type} {h : Q → σ → Except (Halt ε) (Bool × σ)}
    {g : Q → Except (Halt ε) Bool} (hh : ∀ q s, (h q s).map Prod.fst = g q) (w : Walk ε Q α)
    (s : σ) : (w.run h s).map Prod.fst = w.eval g := by
  induction w generalizing s with
  | done a => rfl
  | raise e => rfl
  | ask q k ih =>
    rw [Walk.run, Walk.eval_ask, ← hh q s]
    rcases h q s with e | ⟨b, s'⟩
    · rfl
    · exact ih b s'

/-- Without a usable memo, the memoised search is the search. -/
theorem memoSearch_of_unusable (hB : ∀ d, B.usable d = false) (f d : ℕ) (P : List Q) (q : Q)
    (s : σ × ℕ) :
    (memoSearch B site body f d P q s).map Prod.fst = search site body f P q := by
  induction f generalizing d P q s with
  | zero => rfl
  | succ f ih =>
    obtain ⟨m, c⟩ := s
    rw [memoSearch, search]
    split
    · rfl
    · refine run_eq_eval (fun q' s => ?_) (body q) (m, c)
      rw [memoized, if_neg (by simp [hB])]
      exact ih (d + 1) (q :: P) q' s

end Fuel

end Resolution
