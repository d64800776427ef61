import Mathlib.Tactic.Common

/-!
# Transactions that log under a name

A transaction runs statements one after the other. What a statement logs carries a name: the value of
a setting of the transaction, or a fallback while the setting is empty. A statement may give the
setting a value of its own before it logs, and that value stays for the statements after it.

## Main definitions

* `Statement`: the value that it sets, and what it does and logs
* `runAll`: a list of statements, with the names of what they log
* `Signs`: a statement that leaves the setting alone or sets it to the right name

## Main results

* `signed_of_signs`: statements that sign with a name log under it
* `exists_misnamed`: a statement that sets another name and logs something spoils the log
* `signed_iff_quiet`: statements that all set another name log under it only if they log nothing
-/

namespace Attribution

variable {W ε E : Type}

/-- A statement of a transaction: the value that it gives the setting, if any, and what it does to the
state, with what it logs. -/
structure Statement (W ε E : Type) where
  sets : Option String
  run : W → Except ε (W × List E)

/-- The name under which a statement logs. -/
def signer (fallback setting : String) : String := if setting = "" then fallback else setting

/-- An entry of the log with its name. -/
structure Signed (E : Type) where
  entry : E
  signedBy : String
deriving DecidableEq, Repr

/-- The statements run one after the other, each under the setting that it or an earlier one made. -/
def runAll (fallback : String) :
    String → W → List (Statement W ε E) → Except ε (W × List (Signed E))
  | _, w, [] => .ok (w, [])
  | setting, w, s :: ss => do
    let (w₁, entries) ← s.run w
    let (w₂, log) ← runAll fallback (s.sets.getD setting) w₁ ss
    return (w₂, entries.map (⟨·, signer fallback (s.sets.getD setting)⟩) ++ log)

/-- The statement keeps the setting, or sets it to a value that logs under the name. -/
def Signs (fallback name : String) (s : Statement W ε E) : Prop :=
  ∀ v ∈ s.sets, signer fallback v = name

/-- The statement sets a value that logs under another name. -/
def Missigns (fallback name : String) (s : Statement W ε E) : Prop :=
  ∃ v ∈ s.sets, signer fallback v ≠ name

/-- The statement logs nothing when it runs. -/
def Mute (s : Statement W ε E) : Prop := ∀ w w' entries, s.run w = .ok (w', entries) → entries = []

/-- The statement logs something whenever it runs. -/
def Loud (s : Statement W ε E) : Prop := ∀ w w' entries, s.run w = .ok (w', entries) → entries ≠ []

section Runs

variable {fallback setting name : String} {w w' : W} {s : Statement W ε E} {ss ss' : List (Statement W ε E)}
  {log : List (Signed E)}

theorem runAll_cons : runAll fallback setting w (s :: ss) = .ok (w', log) ↔
    ∃ w₁ entries rest, s.run w = .ok (w₁, entries) ∧
      runAll fallback (s.sets.getD setting) w₁ ss = .ok (w', rest) ∧
      log = entries.map (⟨·, signer fallback (s.sets.getD setting)⟩) ++ rest := by
  rw [runAll]
  cases hs : s.run w with
  | error e => simp [bind, Except.bind]
  | ok r =>
    obtain ⟨w₁, entries⟩ := r
    cases hss : runAll fallback (s.sets.getD setting) w₁ ss with
    | error e => simp [bind, Except.bind, hss]
    | ok r =>
      obtain ⟨w₂, rest⟩ := r
      simp only [bind, Except.bind, hss, pure, Except.pure, Except.ok.injEq, Prod.mk.injEq]
      constructor
      · rintro ⟨rfl, rfl⟩
        exact ⟨w₁, entries, rest, ⟨rfl, rfl⟩, hss, rfl⟩
      · rintro ⟨_, _, rest', ⟨rfl, rfl⟩, hrest, rfl⟩
        rw [hss, Except.ok.injEq, Prod.mk.injEq] at hrest
        obtain ⟨rfl, rfl⟩ := hrest
        exact ⟨rfl, rfl⟩

/-- What a statement logs has one name, and the rest is the rest of the run. -/
theorem signed_cons_iff {entries : List E} {rest : List (Signed E)} {v : String} :
    (∀ row ∈ entries.map (⟨·, signer fallback v⟩) ++ rest, Signed.signedBy row = name) ↔
      (entries = [] ∨ signer fallback v = name) ∧ ∀ row ∈ rest, row.signedBy = name := by
  rw [List.forall_mem_append]
  refine and_congr ?_ Iff.rfl
  cases entries with
  | nil => simp
  | cons e es =>
    simp only [List.mem_map, reduceCtorEq, false_or]
    constructor
    · intro h
      exact h _ ⟨e, List.mem_cons_self, rfl⟩
    · rintro h _ ⟨_, _, rfl⟩
      exact h

/-- **Statements that sign with a name log under it.** -/
theorem signed_of_signs (hrun : runAll fallback setting w ss = .ok (w', log))
    (hsetting : signer fallback setting = name) (hss : ∀ s ∈ ss, Signs fallback name s) :
    ∀ row ∈ log, row.signedBy = name := by
  induction ss generalizing setting w log with
  | nil =>
    cases hrun
    exact nofun
  | cons s ss ih =>
    obtain ⟨w₁, entries, rest, -, hrest, rfl⟩ := runAll_cons.mp hrun
    obtain ⟨hs, hss⟩ := List.forall_mem_cons.mp hss
    have hnext : signer fallback (s.sets.getD setting) = name := by
      cases hsets : s.sets with
      | none => exact hsetting
      | some v => exact hs v hsets
    exact signed_cons_iff.mpr ⟨.inr hnext, ih hrest hnext hss⟩

/-- **A statement that logs something under another name spoils the log.** -/
theorem exists_misnamed (hrun : runAll fallback setting w ss = .ok (w', log)) (hs : s ∈ ss)
    (hmis : Missigns fallback name s) (hloud : Loud s) : ¬∀ row ∈ log, row.signedBy = name := by
  induction ss generalizing setting w log with
  | nil => cases hs
  | cons s' ss ih =>
    obtain ⟨w₁, entries, rest, hs', hrest, rfl⟩ := runAll_cons.mp hrun
    intro hall
    obtain ⟨hhead, htail⟩ := signed_cons_iff.mp hall
    rcases List.mem_cons.mp hs with rfl | hs
    · obtain ⟨v, hv, hne⟩ := hmis
      rw [Option.mem_def.mp hv, Option.getD_some] at hhead
      exact hhead.elim (hloud _ _ _ hs') hne
    · exact ih hrest hs htail

/-- **Statements that set another name log under it only if they log nothing.** `Q` says when a
statement logs nothing; a statement that logs nothing must keep what `Q` asks of the others. -/
theorem signed_iff_quiet {ι : Type} {stmt : ι → Statement W ε E} {Q : W → ι → Prop} {is : List ι}
    (hrun : runAll fallback setting w (is.map stmt) = .ok (w', log))
    (his : ∀ i ∈ is, Missigns fallback name (stmt i) ∨ Mute (stmt i))
    (hquiet : ∀ i ∈ is, ∀ w w' entries, (stmt i).run w = .ok (w', entries) → (entries = [] ↔ Q w i))
    (hkeep : ∀ i ∈ is, ∀ w w', (stmt i).run w = .ok (w', []) → ∀ j ∈ is, Q w' j ↔ Q w j) :
    (∀ row ∈ log, row.signedBy = name) ↔ ∀ i ∈ is, Q w i := by
  induction is generalizing setting w log with
  | nil =>
    cases hrun
    exact iff_of_true nofun nofun
  | cons i is ih =>
    obtain ⟨w₁, entries, rest, hi, hrest, rfl⟩ := runAll_cons.mp hrun
    have himem : i ∈ i :: is := List.mem_cons_self
    have htail : ∀ {j}, j ∈ is → j ∈ i :: is := List.mem_cons_of_mem i
    -- a statement logs under the name only by logging nothing
    have hhead : (entries = [] ∨ signer fallback ((stmt i).sets.getD setting) = name) ↔ Q w i := by
      rw [← hquiet i himem _ _ _ hi]
      refine or_iff_left_of_imp fun hname => ?_
      rcases his i himem with ⟨v, hv, hne⟩ | hmute
      · rw [Option.mem_def.mp hv, Option.getD_some] at hname
        exact absurd hname hne
      · exact hmute _ _ _ hi
    rw [signed_cons_iff, hhead, List.forall_mem_cons]
    refine and_congr_right fun hq => ?_
    obtain rfl := (hquiet i himem _ _ _ hi).mpr hq
    rw [ih hrest (fun j hj => his j (htail hj)) (fun j hj => hquiet j (htail hj))
      fun j hj v v' hv k hk => hkeep j (htail hj) v v' hv k (htail hk)]
    refine forall₂_congr fun j hj => ?_
    exact hkeep i himem _ _ hi j (htail hj)

end Runs

end Attribution
