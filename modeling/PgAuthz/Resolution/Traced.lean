import PgAuthz.Resolution.CycleCut

/-!
# Searches that report

A walk may report what it does, for which it asks no question. What a search reports is collected in the
order of its steps, and it changes nothing: without its reports a search decides the same.

## Main definitions

* `Walk.report s`, `Walk.inquire q`, `Walk.embed w`: report `s`; ask `q`, and run `w`, among the reports
* `Walk.erase w`: the walk without its reports
* `tracedSearch`: the search with a cycle cut, with what it and its bodies report

## Main results

* `tracedSearch_fst`: the reporting search decides as the search over the erased bodies does
-/

namespace Resolution

namespace Walk

variable {ε Q S σ α β ρ : Type}

/-- The walk that reports `s`. -/
def report (s : S) : Walk ε (Q ⊕ S) Unit := ask (.inr s) fun _ => done ()

/-- The walk that asks `q` and returns the answer. -/
def inquire (q : Q) : Walk ε (Q ⊕ S) Bool := ask (.inl q) done

/-- The report, if the condition holds. -/
def reportIf (p : Bool) (s : S) : Walk ε (Q ⊕ S) Unit := if p then report s else done ()

/-- The walk among reports, none of which it makes. -/
def embed : Walk ε Q α → Walk ε (Q ⊕ S) α
  | done a => done a
  | raise e => raise e
  | ask q k => ask (.inl q) fun b => (k b).embed

/-- The walk without its reports. -/
def erase : Walk ε (Q ⊕ S) α → Walk ε Q α
  | done a => done a
  | raise e => raise e
  | ask (.inl q) k => ask q fun b => (k b).erase
  | ask (.inr _) k => (k true).erase

@[simp]
theorem erase_done (a : α) : (done a : Walk ε (Q ⊕ S) α).erase = done a := rfl

@[simp]
theorem erase_raise (e : ε) : (raise e : Walk ε (Q ⊕ S) α).erase = raise e := rfl

@[simp]
theorem erase_inquire (q : Q) : (inquire q : Walk ε (Q ⊕ S) Bool).erase = query q := rfl

@[simp]
theorem erase_report (s : S) : (report s : Walk ε (Q ⊕ S) Unit).erase = done () := rfl

@[simp]
theorem erase_reportIf (p : Bool) (s : S) : (reportIf p s : Walk ε (Q ⊕ S) Unit).erase = done () := by
  cases p <;> rfl

@[simp]
theorem erase_embed (w : Walk ε Q α) : (w.embed : Walk ε (Q ⊕ S) α).erase = w := by
  induction w with
  | done a => rfl
  | raise e => rfl
  | ask q k ih =>
    show ask q (fun b => ((k b).embed : Walk ε (Q ⊕ S) α).erase) = ask q k
    simp only [ih]

@[simp]
theorem erase_lift (x : Except ε α) : (lift x : Walk ε (Q ⊕ S) α).erase = lift x := by
  cases x <;> rfl

/-- A walk is erased step by step. -/
@[simp]
theorem erase_bind (w : Walk ε (Q ⊕ S) α) (f : α → Walk ε (Q ⊕ S) β) :
    (w >>= f).erase = w.erase >>= fun a => (f a).erase := by
  induction w with
  | done a => rfl
  | raise e => rfl
  | ask q k ih =>
    cases q with
    | inl q =>
      show ask q (fun b => (k b >>= f).erase) = ask q fun b => (k b).erase >>= fun a => (f a).erase
      simp only [ih]
    | inr s => exact ih true

/-- A condition that is only passed on. -/
@[simp]
theorem bind_if_true (w : Walk ε Q Bool) : (w >>= fun b => if b = true then done true else done false) = w := by
  induction w with
  | done b => cases b <;> rfl
  | raise e => rfl
  | ask q k ih =>
    show ask q (fun b => k b >>= fun c => if c = true then done true else done false) = ask q k
    simp only [ih]

theorem erase_ite {p : Prop} [Decidable p] (w w' : Walk ε (Q ⊕ S) α) :
    (if p then w else w').erase = if p then w.erase else w'.erase := by
  split <;> rfl

/-- A loop is erased row by row. -/
theorem erase_any {rows : List ρ} {f : ρ → Walk ε (Q ⊕ S) Bool} {g : ρ → Walk ε Q Bool}
    (h : ∀ r ∈ rows, (f r).erase = g r) : (any rows f).erase = any rows g := by
  induction rows with
  | nil => rfl
  | cons r rows ih =>
    rw [any, any, erase_bind, h r List.mem_cons_self]
    congr 1
    funext b
    rw [erase_ite, ih fun r' hr' => h r' (List.mem_cons_of_mem r hr')]
    rfl

/-- **Reports change no answer**: if the questions are answered alike and every report goes through, then
the threaded walk returns what the erased walk does. -/
theorem run_erase {h : Q ⊕ S → σ → Except (Halt ε) (Bool × σ)} {g : Q → Except (Halt ε) Bool}
    (hq : ∀ q s, (h (.inl q) s).map Prod.fst = g q) (hs : ∀ r s, ∃ s', h (.inr r) s = .ok (true, s'))
    (w : Walk ε (Q ⊕ S) α) (s : σ) : (w.run h s).map Prod.fst = w.erase.eval g := by
  induction w generalizing s with
  | done a => rfl
  | raise e => rfl
  | ask q k ih =>
    rw [run]
    cases q with
    | inl q =>
      have hanswer := hq q s
      rw [erase, eval_ask, ← hanswer]
      rcases h (.inl q) s with e | ⟨b, s'⟩
      · rfl
      · exact ih b s'
    | inr r =>
      obtain ⟨s', hreport⟩ := hs r s
      rw [hreport]
      exact ih true s'

end Walk

variable {ε Q S K : Type} [DecidableEq K]

/-- The search for `q` at depth `d` below the open questions `P`, at most `f` levels deep, with what has
been reported. A cut is reported. -/
def tracedSearch (site : Q → K) (cut : ℕ → Q → S) (body : ℕ → Q → Walk ε (Q ⊕ S) Bool) :
    ℕ → ℕ → List Q → Q → List S → Except (Halt ε) (Bool × List S)
  | 0, _, _, _, _ => .error .depth
  | f + 1, d, P, q, steps =>
    if site q ∈ P.map site then .ok (false, steps ++ [cut d q])
    else (body d q).run (fun
      | .inl q' => tracedSearch site cut body f (d + 1) (q :: P) q'
      | .inr s => fun steps => .ok (true, steps ++ [s])) steps

/-- **The reporting search decides as the search without reports does.** -/
theorem tracedSearch_fst {site : Q → K} {cut : ℕ → Q → S} {body : ℕ → Q → Walk ε (Q ⊕ S) Bool}
    {body' : Q → Walk ε Q Bool} (hbody : ∀ d q, (body d q).erase = body' q) (f d : ℕ) (P : List Q) (q : Q)
    (steps : List S) :
    (tracedSearch site cut body f d P q steps).map Prod.fst = search site body' f P q := by
  induction f generalizing d P q steps with
  | zero => rfl
  | succ f ih =>
    rw [tracedSearch, search]
    split
    · rfl
    · rw [Walk.run_erase (g := search site body' f (q :: P)) (fun q' s => ih (d + 1) (q :: P) q' s)
        (fun r s => ⟨_, rfl⟩), hbody]

end Resolution
