import Mathlib
import PgAuthz.Writes.Paths

/-!
# A cap and wildcards exclude each other

A cap, a wildcard facet, a rule for object wildcards and a wildcard tuple on one relation contradict
each other. Each of them is declared under the lock of the relation in the model, after a look for the
others, and what no transaction with this lock has declared can only go away. `import_openfga_model`
is the exception: it inserts wildcard facets without the lock and without a look for a cap.

## Main definitions

* `Fact`, `DbChange.decides`: a declaration on a relation, and what a change does to it
* `Sound`: a relation with a cap has no wildcards
* `SoundTx`: what holds of an open transaction
* `Request.imports`, `ImportsAlone`: the relations that an import opens to wildcards, and the condition
  under which it does no harm

## Main results

* `holds_foldl_apply`: the last change that decides a fact decides it in the view
* `cap_excludes_wildcards`: every relation is sound in every run whose imports do no harm
* `imported_facet_beside_cap`: an import puts a wildcard facet on a capped relation
-/

namespace PgAuthz.Paths

open Scripts Transition

/-! ## Facts -/

/-- A declaration on a relation: a cap, a facet, a rule for object wildcards (up to its unique key),
and an active row. -/
inductive Fact
  | cap (κ : RelationKey)
  | facet (store : ℕ) (f : Facet)
  | flagged (ρ : ModelRow)
  | active (k : RowKey)

/-- The fact holds at a time. -/
def Fact.holds (t : ℤ) (d : Db) : Fact → Bool
  | cap κ => (d.maxDirect κ).isSome
  | facet store f => (store, f) ∈ d.restrictions
  | flagged ρ => d.rules.any fun ρ' => ρ'.key = ρ.key && ρ'.allowObjectWildcard
  | active k => d.active t k

/-- Whether the fact holds after a change, if the change decides it. -/
def DbChange.decides (t : ℤ) : DbChange → Fact → Option Bool
  | constraint κ new, .cap κ' => if κ = κ' then some (new.bind Bounds.maxDirect).isSome else none
  | restriction store f keep, .facet store' f' => if (store, f) = (store', f') then some keep else none
  | rule ρ keep, .flagged ρ' =>
    if ρ.key = ρ'.key then some (keep && ρ.allowObjectWildcard) else none
  | row k new, .active k' => if k = k' then some (new.any (Tuple.visibleAt t)) else none
  | _, _ => none

theorem mem_keepRow {α : Type} [DecidableEq α] {rows : List α} {row a : α} {keep : Bool} :
    a ∈ keepRow rows row keep ↔ if row = a then keep = true else a ∈ rows := by
  unfold keepRow
  by_cases ha : row = a
  · subst ha
    cases keep <;> simp
  · have hne : a ≠ row := fun h => ha h.symm
    cases keep <;> simp [ha, hne]

/-- The flags of the rules after a change. -/
theorem flagged_keepRule {rules : List ModelRow} {row ρ : ModelRow} {keep : Bool} :
    ((keepRule rules row keep).any fun ρ' => ρ'.key = ρ.key && ρ'.allowObjectWildcard) =
      if row.key = ρ.key then keep && row.allowObjectWildcard
      else rules.any fun ρ' => ρ'.key = ρ.key && ρ'.allowObjectWildcard := by
  unfold keepRule
  by_cases hkey : row.key = ρ.key
  · rw [if_pos hkey]
    cases keep with
    | false =>
      simp only [Bool.false_and, ← hkey]
      simp
      exact fun ρ' _ hne heq => absurd heq hne
    | true =>
      split
      · split
        · rename_i hany
          -- every rule of the key takes the flag, and there is one
          obtain ⟨ρ₁, hρ₁, hk₁⟩ := List.any_eq_true.mp hany
          rw [Bool.eq_iff_iff, List.any_eq_true]
          simp only [List.mem_map, Bool.and_eq_true, decide_eq_true_eq, Bool.true_and]
          constructor
          · rintro ⟨-, ⟨ρ₂, -, rfl⟩, hk, hflag⟩
            split at hflag
            · exact hflag
            · rename_i hne
              rw [if_neg hne] at hk
              exact absurd (hk.trans hkey.symm) hne
          · intro hflag
            refine ⟨_, ⟨ρ₁, hρ₁, rfl⟩, ?_⟩
            rw [if_pos (of_decide_eq_true hk₁)]
            exact ⟨(of_decide_eq_true hk₁).trans hkey, hflag⟩
        · rename_i hany
          have hnone : (rules.any fun ρ' => ρ'.key = ρ.key && ρ'.allowObjectWildcard) = false := by
            rw [← hkey, List.any_eq_false]
            intro ρ' hρ' h
            rw [Bool.and_eq_true] at h
            exact hany (List.any_eq_true.mpr ⟨ρ', hρ', h.1⟩)
          rw [List.any_append, hnone]
          simp [hkey]
      · rename_i hkeep
        exact absurd rfl hkeep
  · rw [if_neg hkey]
    cases keep with
    | false =>
      rw [if_neg (by simp), List.any_filter]
      congr 1
      ext1 ρ'
      by_cases h : ρ'.key = ρ.key
      · simp [h, Ne.symm hkey]
      · simp [h]
    | true =>
      rw [if_pos rfl]
      split
      · rw [List.any_map]
        congr 1
        ext1 ρ'
        simp only [Function.comp]
        split
        · rename_i h
          have hne : ρ'.key ≠ ρ.key := fun h' => hkey (h.symm.trans h')
          simp [ModelRow.key] at hne ⊢
          grind
        · rfl
      · rw [List.any_append]
        simp [hkey]

theorem bounds_apply_constraint (d : Db) (κ κ' : RelationKey) (new : Option Bounds) :
    (d.apply (.constraint κ new)).bounds κ' = if κ = κ' then new else d.bounds κ' := by
  simp only [Db.bounds, Db.apply, List.find?_append]
  by_cases h : κ = κ'
  · subst h
    have hnone : (d.constraints.filter fun c => c.1 ≠ κ).find? (fun c => c.1 = κ) = none :=
      List.find?_eq_none.mpr fun c hc => by simpa using (List.mem_filter.mp hc).2
    rw [if_pos rfl, hnone]
    cases new <;> simp
  · have hfind : (d.constraints.filter fun c => c.1 ≠ κ).find? (fun c => c.1 = κ') =
        d.constraints.find? fun c => c.1 = κ' := by
      rw [List.find?_filter]
      congr 1
      ext1 c
      by_cases hc : c.1 = κ'
      · simp [hc, Ne.symm h]
      · simp [hc]
    rw [if_neg h, hfind]
    cases new <;> simp [h]

theorem holds_apply (t : ℤ) (d : Db) (ch : DbChange) (φ : Fact) :
    φ.holds t (d.apply ch) = (ch.decides t φ).getD (φ.holds t d) := by
  cases φ with
  | cap κ =>
    cases ch with
    | constraint κ' new =>
      simp only [Fact.holds, DbChange.decides, Db.maxDirect, bounds_apply_constraint]
      split <;> rfl
    | row k new => cases new <;> rfl
    | _ => rfl
  | facet store f =>
    cases ch with
    | restriction store' f' keep =>
      simp only [Fact.holds, DbChange.decides, Db.apply, mem_keepRow]
      split <;> simp
    | row k new => cases new <;> rfl
    | _ => rfl
  | flagged ρ =>
    cases ch with
    | rule ρ' keep =>
      simp only [Fact.holds, DbChange.decides, Db.apply, flagged_keepRule]
      split <;> rfl
    | row k new => cases new <;> rfl
    | _ => rfl
  | active k =>
    simp only [Fact.holds, Db.active, lookup_apply]
    cases ch with
    | row k' new =>
      simp only [DbChange.rowOf, DbChange.decides]
      split <;> rfl
    | _ => rfl

/-- Whether the fact holds after a list of changes, if one of them decides it. -/
def lastDecision (t : ℤ) (φ : Fact) : List DbChange → Option Bool
  | [] => none
  | ch :: chs => (lastDecision t φ chs).or (ch.decides t φ)

/-- **The last change that decides a fact decides it in the view.** -/
theorem holds_foldl_apply (t : ℤ) (d : Db) (chs : List DbChange) (φ : Fact) :
    φ.holds t (chs.foldl Db.apply d) = (lastDecision t φ chs).getD (φ.holds t d) := by
  induction chs generalizing d with
  | nil => rfl
  | cons ch chs ih =>
    rw [List.foldl_cons, ih, holds_apply, lastDecision]
    cases lastDecision t φ chs with
    | none => rfl
    | some b => rfl

theorem exists_of_lastDecision {t : ℤ} {φ : Fact} {chs : List DbChange} {b : Bool}
    (h : lastDecision t φ chs = some b) : ∃ ch ∈ chs, ch.decides t φ = some b := by
  induction chs with
  | nil => cases h
  | cons ch chs ih =>
    rcases Option.or_eq_some_iff.mp h with h | ⟨-, h⟩
    · obtain ⟨ch', hch', h⟩ := ih h
      exact ⟨ch', List.mem_cons_of_mem ch hch', h⟩
    · exact ⟨ch, List.mem_cons_self, h⟩

/-! ## Sound relations -/

/-- The fact opens a relation to wildcards. -/
def Fact.opens (κ : RelationKey) : Fact → Prop
  | cap _ => False
  | facet store f => store = κ.storeId ∧ f.objectType = κ.objectType ∧ f.relation = κ.relation ∧
    f.allowWildcard = true
  | flagged ρ => ρ.storeId = κ.storeId ∧ ρ.rule.objectType = κ.objectType ∧
    ρ.rule.relation = κ.relation ∧ ρ.rule.body = .direct
  | active k => (pairOf k).key = κ ∧ isWildcard k = true

/-- The fact caps the relation or opens it. -/
def Fact.about (κ : RelationKey) (φ : Fact) : Prop := φ = .cap κ ∨ φ.opens κ

/-- A relation with a cap is not open to wildcards. -/
def Sound (t : ℤ) (d : Db) (κ : RelationKey) : Prop :=
  (Fact.cap κ).holds t d = true → ∀ φ : Fact, φ.opens κ → φ.holds t d = false

/-- What the checks of the code find is what is open. -/
theorem exists_opens_iff {t : ℤ} {d : Db} {κ : RelationKey} :
    (∃ φ : Fact, φ.opens κ ∧ φ.holds t d = true) ↔
      d.allowsWildcards κ = true ∨ d.activeWildcard κ t = true := by
  simp only [Db.allowsWildcards, Db.activeWildcard, Bool.or_eq_true, List.any_eq_true,
    Bool.and_eq_true, decide_eq_true_eq]
  constructor
  · rintro ⟨φ, hopens, hholds⟩
    cases φ with
    | cap κ' => exact hopens.elim
    | facet store f =>
      obtain ⟨hs, ht, hr, hw⟩ := hopens
      exact .inl (.inl ⟨(store, f), of_decide_eq_true hholds, ⟨⟨hs, ht⟩, hr⟩, hw⟩)
    | flagged ρ =>
      obtain ⟨hs, ht, hr, hb⟩ := hopens
      obtain ⟨ρ', hρ', h⟩ := List.any_eq_true.mp hholds
      rw [Bool.and_eq_true, decide_eq_true_eq] at h
      simp only [ModelRow.key, Prod.mk.injEq] at h
      obtain ⟨⟨hs', ht', hr', hb', -⟩, hflag⟩ := h
      exact .inl (.inr ⟨ρ', hρ', ⟨⟨⟨hs'.trans hs, ht'.trans ht⟩, hr'.trans hr⟩, hb'.trans hb⟩, hflag⟩)
    | active k =>
      refine .inr ⟨k, ?_, ⟨hopens.1, hopens.2⟩, hholds⟩
      exact AList.mem_keys.mpr (AList.lookup_isSome.mp (Option.isSome_of_any hholds))
  · rintro ((⟨⟨store, f⟩, hmem, ⟨⟨hs, ht⟩, hr⟩, hw⟩ | ⟨ρ, hmem, ⟨⟨⟨hs, ht⟩, hr⟩, hb⟩, hflag⟩) |
      ⟨k, -, ⟨hκ, hwild⟩, hact⟩)
    · exact ⟨.facet store f, ⟨hs, ht, hr, hw⟩, decide_eq_true hmem⟩
    · refine ⟨.flagged ρ, ⟨hs, ht, hr, hb⟩, List.any_eq_true.mpr ⟨ρ, hmem, ?_⟩⟩
      simp [hflag]
    · exact ⟨.active k, ⟨hκ, hwild⟩, hact⟩

theorem sound_iff {t : ℤ} {d : Db} {κ : RelationKey} :
    Sound t d κ ↔ ((d.maxDirect κ).isSome = true →
      d.allowsWildcards κ = false ∧ d.activeWildcard κ t = false) := by
  have hopen := exists_opens_iff (t := t) (d := d) (κ := κ)
  constructor
  · intro h hcap
    constructor
    · by_contra hne
      obtain ⟨φ, hφ, hholds⟩ := hopen.mpr (.inl (by simpa using hne))
      rw [h hcap φ hφ] at hholds
      cases hholds
    · by_contra hne
      obtain ⟨φ, hφ, hholds⟩ := hopen.mpr (.inr (by simpa using hne))
      rw [h hcap φ hφ] at hholds
      cases hholds
  · intro h hcap φ hφ
    by_contra hne
    obtain ⟨h₁, h₂⟩ := h hcap
    rcases hopen.mp ⟨φ, hφ, by simpa using hne⟩ with h' | h'
    · rw [h₁] at h'
      cases h'
    · rw [h₂] at h'
      cases h'

/-- Where fewer facts hold a relation stays sound. -/
theorem Sound.mono {t : ℤ} {d d' : Db} {κ : RelationKey} (h : Sound t d κ)
    (hle : ∀ φ : Fact, φ.about κ → φ.holds t d' = true → φ.holds t d = true) : Sound t d' κ := by
  intro hcap φ hφ
  have hfalse := h (hle _ (.inl rfl) hcap) φ hφ
  by_contra hne
  rw [hle φ (.inr hφ) (by simpa using hne)] at hfalse
  cases hfalse

/-- The change makes a fact about the relation hold. -/
def DbChange.raises (t : ℤ) (κ : RelationKey) (ch : DbChange) : Prop :=
  ∃ φ : Fact, φ.about κ ∧ ch.decides t φ = some true

section Views

variable {t : ℤ} {d : Db} {κ : RelationKey} {chs chs' : List DbChange} {φ : Fact}

/-- A fact that changes have not made hold was there before them. -/
theorem holds_of_not_raised (hraise : ∀ ch ∈ chs, ¬ ch.raises t κ) (hφ : φ.about κ)
    (h : φ.holds t (chs.foldl Db.apply d) = true) : φ.holds t d = true := by
  rw [holds_foldl_apply] at h
  cases hlast : lastDecision t φ chs with
  | none =>
    rw [hlast] at h
    exact h
  | some b =>
    rw [hlast] at h
    obtain ⟨ch, hch, hdec⟩ := exists_of_lastDecision hlast
    exact absurd ⟨φ, hφ, hdec.trans (congrArg some h)⟩ (hraise ch hch)

/-- Changes under those of a transaction. -/
theorem holds_beside (hraise : ∀ ch ∈ chs, ¬ ch.raises t κ) (hφ : φ.about κ)
    (h : φ.holds t (chs'.foldl Db.apply (chs.foldl Db.apply d)) = true) :
    φ.holds t (chs'.foldl Db.apply d) = true := by
  rw [holds_foldl_apply] at h ⊢
  cases hlast : lastDecision t φ chs' with
  | none =>
    rw [hlast] at h
    exact holds_of_not_raised hraise hφ h
  | some b =>
    rw [hlast] at h
    exact h

end Views

/-- The change deletes a row, or it is about the types. -/
def DbChange.isRemoval : DbChange → Bool
  | row _ none | constraint _ none | restriction _ _ false | rule _ false | type _ _ => true
  | _ => false

theorem not_raises_of_isRemoval {t : ℤ} {κ : RelationKey} {ch : DbChange}
    (h : ch.isRemoval = true) : ¬ ch.raises t κ := by
  rintro ⟨φ, -, hdec⟩
  cases ch with
  | row k new =>
    cases new with
    | none => cases φ <;> simp [DbChange.decides] at hdec
    | some u => cases h
  | constraint κ' new =>
    cases new with
    | none => cases φ <;> simp [DbChange.decides] at hdec
    | some b => cases h
  | restriction store f keep =>
    cases keep with
    | false => cases φ <;> simp [DbChange.decides] at hdec
    | true => cases h
  | rule ρ keep =>
    cases keep with
    | false => cases φ <;> simp [DbChange.decides] at hdec
    | true => cases h
  | type row keep => cases φ <;> simp [DbChange.decides] at hdec

section Raises

variable {t : ℤ} {κ : RelationKey}

theorem raises_row {k : RowKey} {new : Option Tuple} (h : (DbChange.row k new).raises t κ) :
    isWildcard k = true ∧ κ = (pairOf k).key := by
  obtain ⟨φ, hφ, hdec⟩ := h
  cases φ with
  | active k' =>
    rcases hφ with hφ | ⟨hκ, hwild⟩
    · cases hφ
    · simp only [DbChange.decides, Option.ite_none_right_eq_some] at hdec
      rw [hdec.1]
      exact ⟨hwild, hκ.symm⟩
  | _ => cases hdec

theorem raises_constraint {κ' : RelationKey} {b : Bounds}
    (h : (DbChange.constraint κ' (some b)).raises t κ) : b.maxDirect.isSome = true ∧ κ = κ' := by
  obtain ⟨φ, hφ, hdec⟩ := h
  cases φ with
  | cap κ'' =>
    rcases hφ with hφ | hφ
    · cases hφ
      simp only [DbChange.decides, Option.ite_none_right_eq_some, Option.some.injEq] at hdec
      exact ⟨hdec.2, hdec.1.symm⟩
    · exact hφ.elim
  | _ => cases hdec

theorem raises_restriction {store : ℕ} {f : Facet} {keep : Bool}
    (h : (DbChange.restriction store f keep).raises t κ) :
    f.allowWildcard = true ∧ κ = ⟨store, f.objectType, f.relation⟩ := by
  obtain ⟨φ, hφ, hdec⟩ := h
  cases φ with
  | facet store' f' =>
    simp only [DbChange.decides, Option.ite_none_right_eq_some, Prod.mk.injEq] at hdec
    obtain ⟨⟨rfl, rfl⟩, -⟩ := hdec
    rcases hφ with hφ | ⟨hs, ht, hr, hwild⟩
    · cases hφ
    · exact ⟨hwild, by rw [hs, ht, hr]⟩
  | _ => cases hdec

theorem raises_rule {ρ : ModelRow} {keep : Bool} (h : (DbChange.rule ρ keep).raises t κ) :
    ρ.allowObjectWildcard = true ∧ κ = ⟨ρ.storeId, ρ.rule.objectType, ρ.rule.relation⟩ := by
  obtain ⟨φ, hφ, hdec⟩ := h
  cases φ with
  | flagged ρ' =>
    simp only [DbChange.decides, Option.ite_none_right_eq_some, Option.some.injEq, Bool.and_eq_true,
      ModelRow.key, Prod.mk.injEq] at hdec
    obtain ⟨⟨hs', ht', hr', -⟩, -, hflag⟩ := hdec
    rcases hφ with hφ | ⟨hs, ht, hr, -⟩
    · cases hφ
    · exact ⟨hflag, by rw [hs', hs, ht', ht, hr', hr]⟩
  | _ => cases hdec

end Raises

/-- **All changes are removals**, but for an edit of the model and a row that is put. -/
theorem isRemoval_of_exec {now : ℤ} {store : ℕ} {st : Stmt} {d : Db} {chs : List DbChange}
    {sts : List Stmt} (h : st.exec now store d = some (chs, sts)) {ch : DbChange} (hch : ch ∈ chs) :
    ch.isRemoval = true ∨ st = .edit ch ∨
      ∃ op, st = .putRow op ∧ rowChange d now op = some ch := by
  cases st with
  -- guards and checks change nothing
  | require ok =>
    rw [Stmt.exec] at h
    split at h <;> cases h
    cases hch
  | capGuard op =>
    rw [Stmt.exec] at h
    split at h
    · cases h
      cases hch
    · split at h <;> cases h
      cases hch
  | capCount op =>
    rw [Stmt.exec] at h
    split at h
    · cases h
      cases hch
    · split at h <;> cases h
      cases hch
  | putRow op =>
    cases h
    exact .inr (.inr ⟨op, rfl, Option.mem_toList.mp hch⟩)
  | floor p deletes writes =>
    rw [Stmt.exec] at h
    split at h <;> cases h
    cases hch
  -- deletions, and what a new definition leaves out
  | deleteRows keys =>
    cases h
    obtain ⟨k, -, hch⟩ := List.mem_filterMap.mp hch
    rw [rowChange_delete hch]
    exact .inl rfl
  | deleteUser userType userId =>
    cases h
    obtain ⟨k, -, rfl⟩ := List.mem_map.mp hch
    exact .inl rfl
  | checkWildcards objectType relation b =>
    simp only [Stmt.exec] at h
    split at h <;> cases h
    cases hch
  | checkUncapped objectType relation ch' =>
    simp only [Stmt.exec] at h
    split at h <;> cases h
    cases hch
  | edit ch' =>
    cases h
    exact .inr (.inl (congrArg _ (List.mem_singleton.mp hch).symm))
  | removeType objectType force =>
    simp only [Stmt.exec] at h
    split at h <;> cases h
    simp only [typeRemovals, List.mem_append, List.mem_map] at hch
    rcases hch with ((⟨_, -, rfl⟩ | ⟨_, -, rfl⟩) | ⟨_, -, rfl⟩) | ⟨_, -, rfl⟩ <;> exact .inl rfl
  | registerTypes types partitioned =>
    cases h
    obtain ⟨k, -, rfl⟩ := List.mem_map.mp hch
    exact .inl rfl
  | staleConstraints definition =>
    cases h
    obtain ⟨k, -, rfl⟩ := List.mem_map.mp hch
    exact .inl rfl
  | staleRules definition =>
    cases h
    obtain ⟨k, -, rfl⟩ := List.mem_map.mp hch
    exact .inl rfl
  | staleRestrictions definition =>
    cases h
    obtain ⟨k, -, rfl⟩ := List.mem_map.mp hch
    exact .inl rfl
  | clearModel =>
    cases h
    simp only [List.mem_append, List.mem_map] at hch
    rcases hch with ⟨_, -, rfl⟩ | ⟨_, -, rfl⟩ <;> exact .inl rfl
  | _ =>
    cases h
    cases hch

/-! ## Checks before edits -/

/-- The relations that an import opens to wildcards. -/
def Request.opened (r : Request) : List RelationKey :=
  match r.call with
  | .importOpenfgaModel _ relations => relations.flatMap fun rel =>
    (rel.relatedUserTypes.filter fun u => (rel.facet u).allowWildcard).map fun _ =>
      ⟨r.store, rel.objectType, rel.relation⟩
  | _ => []

/-- The request is an import that opens the relation. -/
def Request.imports (r : Request) (κ : RelationKey) : Prop := κ ∈ r.opened

/-- A statement to come: a check runs under the lock of the relation, and only an import makes an edit
that raises a fact without a check. -/
def Checked (t : ℤ) (r : Request) (held : List Lock) : Stmt → Prop
  | .capGuard op => isWildcard op.key = true → (pairOf op.key).key.lock ∈ held
  | .capCount op => isWildcard op.key = false
  | .putRow op => isWildcard op.key = false
  | .checkWildcards objectType relation _ =>
    RelationKey.lock ⟨r.store, objectType, relation⟩ ∈ held
  | .checkUncapped objectType relation ch =>
    RelationKey.lock ⟨r.store, objectType, relation⟩ ∈ held ∧
      ∀ κ, ch.raises t κ → κ = ⟨r.store, objectType, relation⟩ ∧ ch.decides t (.cap κ) = none
  | .edit ch => ∀ κ, ch.raises t κ → r.imports κ
  | _ => True

/-- A statement that a check has let pass: what it raises is under its lock, and leaves the relation
sound. -/
def Ready (t : ℤ) (V : Db) (held : List Lock) : Stmt → Prop
  | .putRow op => (pairOf op.key).key.lock ∈ held ∧ V.maxDirect (pairOf op.key).key = none
  | .edit ch => ∀ κ, ch.raises t κ → κ.lock ∈ held ∧ Sound t (V.apply ch) κ
  | _ => False

/-- All statements to come are checked under the locks taken before them. -/
def WellChecked (t : ℤ) (r : Request) : List Lock → List Stmt → Prop
  | _, [] => True
  | held, st :: sts => Checked t r held st ∧ WellChecked t r (held ++ st.lock?.toList) sts

section Checked

variable {t : ℤ} {r : Request} {held held' : List Lock} {sts sts' : List Stmt}

theorem Checked.mono (hsub : held ⊆ held') {st : Stmt} (h : Checked t r held st) :
    Checked t r held' st := by
  cases st with
  | capGuard op => exact fun hwild => hsub (h hwild)
  | checkWildcards objectType relation b => exact hsub h
  | checkUncapped objectType relation ch => exact ⟨hsub h.1, h.2⟩
  | _ => exact h

theorem WellChecked.mono (hsub : held ⊆ held') (h : WellChecked t r held sts) :
    WellChecked t r held' sts := by
  induction sts generalizing held held' with
  | nil => trivial
  | cons st sts ih =>
    refine ⟨h.1.mono hsub, ih ?_ h.2⟩
    exact List.append_subset.mpr ⟨List.subset_append_of_subset_left _ hsub,
      List.subset_append_right _ _⟩

theorem WellChecked.append (h : WellChecked t r held sts) (h' : WellChecked t r held sts') :
    WellChecked t r held (sts ++ sts') := by
  induction sts generalizing held with
  | nil => exact h'
  | cons st sts ih => exact ⟨h.1, ih h.2 (h'.mono (List.subset_append_left _ _))⟩

theorem wellChecked_of_forall (h : ∀ st ∈ sts, Checked t r [] st) : WellChecked t r held sts := by
  induction sts generalizing held with
  | nil => trivial
  | cons st sts ih =>
    refine ⟨(h st List.mem_cons_self).mono (List.nil_subset _), ?_⟩
    exact ih fun st' hst' => h st' (List.mem_cons_of_mem st hst')

theorem WellChecked.flatMap {α : Type} {l : List α} {f : α → List Stmt}
    (h : ∀ a ∈ l, WellChecked t r held (f a)) : WellChecked t r held (l.flatMap f) := by
  induction l with
  | nil => trivial
  | cons a l ih =>
    rw [List.flatMap_cons]
    exact (h a List.mem_cons_self).append (ih fun b hb => h b (List.mem_cons_of_mem a hb))

/-- The statements of the calls that write tuples need no check. -/
theorem checked_of_isEntry {st : Stmt} (h : st.isEntry = true) : Checked t r held st := by
  cases st with
  | lock _ | require _ | scan | cappedObjects _ | insertRow _ | floors _ _ | floor _ _ _
  | deleteRows _ | listUser _ _ | deleteUser _ _ => trivial
  | _ => cases h

end Checked

/-! ## The scripts are well checked -/

section Scripts

variable {t : ℤ} {r : Request} {held : List Lock}

/-- A check right after its lock. -/
theorem wellChecked_lock {κ : RelationKey} {st : Stmt} (h : Checked t r (held ++ [κ.lock]) st) :
    WellChecked t r held [.lock κ.lock, st] :=
  ⟨trivial, h, trivial⟩

theorem wellChecked_setRelationConstraint (objectType relation : ℕ) (b : Bounds) :
    WellChecked t r held (modelSetRelationConstraint r.store objectType relation b) := by
  unfold modelSetRelationConstraint
  split
  · refine wellChecked_lock (κ := ⟨r.store, objectType, relation⟩) ?_
    exact List.mem_append_right _ (List.mem_singleton_self _)
  · rename_i hmax
    exact ⟨fun κ hκ => absurd (raises_constraint hκ).1 hmax, trivial⟩

theorem wellChecked_addRule (rule : Rule) (flag : Bool) :
    WellChecked t r held (modelAddRule r.store rule flag) := by
  refine ⟨trivial, ?_⟩
  split
  · refine wellChecked_lock (κ := ⟨r.store, rule.objectType, rule.relation⟩) ⟨?_, ?_⟩
    · exact List.mem_append_right _ (List.mem_singleton_self _)
    · exact fun κ hκ => ⟨(raises_rule hκ).2, rfl⟩
  · rename_i hflag
    exact ⟨fun κ hκ => absurd (raises_rule hκ).1 hflag, trivial⟩

theorem wellChecked_addTypeRestriction (f : Facet) :
    WellChecked t r held (modelAddTypeRestriction r.store f) := by
  refine ⟨trivial, ?_⟩
  split
  · refine wellChecked_lock (κ := ⟨r.store, f.objectType, f.relation⟩) ⟨?_, ?_⟩
    · exact List.mem_append_right _ (List.mem_singleton_self _)
    · exact fun κ hκ => ⟨(raises_restriction hκ).2, rfl⟩
  · rename_i hwild
    exact ⟨fun κ hκ => absurd (raises_restriction hκ).1 hwild, trivial⟩

theorem wellChecked_applyModel (definition : ModelDefinition) :
    WellChecked t r held (applyModel r.store definition) := by
  unfold applyModel
  refine WellChecked.append (WellChecked.append ?_ ?_) ?_
  · refine wellChecked_of_forall fun st hst => ?_
    simp only [List.mem_cons, List.not_mem_nil, or_false] at hst
    rcases hst with rfl | rfl | rfl | rfl | rfl | rfl <;> trivial
  · exact WellChecked.flatMap fun ρ _ => wellChecked_addRule ρ.1 ρ.2
  · refine ⟨trivial, WellChecked.append ?_ ?_⟩
    · exact WellChecked.flatMap fun f _ => wellChecked_addTypeRestriction f
    · exact WellChecked.flatMap fun c _ => wellChecked_setRelationConstraint _ _ _

theorem wellChecked_importOpenfgaModel {types : List ℕ} {relations : List OpenfgaRelation}
    (hcall : r.call = .importOpenfgaModel types relations) :
    WellChecked t r held (importOpenfgaModel r.store types relations) := by
  refine wellChecked_of_forall fun st hst => ?_
  simp only [importOpenfgaModel, List.mem_cons, List.mem_flatMap, List.mem_append, List.mem_map,
    List.not_mem_nil, or_false] at hst
  rcases hst with rfl | rfl | ⟨rel, hrel, ⟨u, hu, rfl | rfl⟩ | ⟨ρ, -, rfl⟩⟩
  · trivial
  · trivial
  · trivial
  · -- the one edit that opens a relation without a check
    intro κ hκ
    obtain ⟨hwild, rfl⟩ := raises_restriction hκ
    rw [Request.imports, Request.opened, hcall]
    refine List.mem_flatMap.mpr ⟨rel, hrel, List.mem_map.mpr ⟨u, ?_, rfl⟩⟩
    exact List.mem_filter.mpr ⟨hu, hwild⟩
  · exact fun κ hκ => absurd (raises_rule hκ).1 (by simp)

/-- **Every script is well checked.** -/
theorem wellChecked_script : WellChecked t r held r.script := by
  by_cases hcall : r.call.isTupleCall = true
  · exact wellChecked_of_forall fun st hst => checked_of_isEntry (isEntry_script hcall st hst)
  · unfold Request.script
    split
    all_goals first
      | rename_i h
        exact absurd (by rw [h]; rfl) hcall
      | skip
    · exact wellChecked_setRelationConstraint _ _ _
    · exact ⟨fun κ hκ => absurd hκ (not_raises_of_isRemoval rfl), trivial⟩
    · exact wellChecked_addRule _ _
    · exact wellChecked_addTypeRestriction _
    · exact ⟨trivial, trivial, trivial⟩
    · exact wellChecked_applyModel _
    · rename_i h
      exact wellChecked_importOpenfgaModel h

end Scripts

/-! ## The invariant -/

/-- The statements that are left: the first one is to be checked or has been let pass, the others are
to be checked. -/
def NextChecked (t : ℤ) (V : Db) (r : Request) (held : List Lock) : List Stmt → Prop
  | [] => True
  | st :: sts =>
    (Checked t r held st ∨ Ready t V held st) ∧ WellChecked t r (held ++ st.lock?.toList) sts

theorem WellChecked.nextChecked {t : ℤ} {V : Db} {r : Request} {held : List Lock} {sts : List Stmt}
    (h : WellChecked t r held sts) : NextChecked t V r held sts := by
  cases sts with
  | nil => trivial
  | cons st sts => exact ⟨.inl h.1, h.2⟩

/-- **What holds of an open transaction**: it raises a fact about a relation under its lock, or by an
import, and a relation that it has locked is sound in its view unless it imports to it. -/
structure SoundTx (t : ℤ) (d : Db) (x : PathTx) : Prop where
  times : ∀ r ∈ x.requests, r.now ≤ t
  raised : ∀ ch ∈ x.changes, ∀ κ, ch.raises t κ →
    κ.lock ∈ x.held ∨ ∃ r ∈ x.requests, r.imports κ
  sound : ∀ κ, κ.lock ∈ x.held → (∀ r ∈ x.requests, ¬ r.imports κ) →
    Sound t (pathSystem.view d x) κ
  next : ∀ r rs, x.requests = r :: rs → NextChecked t (pathSystem.view d x) r x.held x.todo

/-- A commit of an import finds every relation that it opens without a cap, and no other open
transaction has the lock of one. -/
def ImportsAlone (s : PathState) : Event Request → Prop
  | .commit i => ∀ x ∈ s.opened[i]?, ∀ κ ∈ x.requests.flatMap Request.opened,
    (pathSystem.view s.db x).maxDirect κ = none ∧ ∀ y ∈ s.opened.eraseIdx i, κ.lock ∉ y.held
  | _ => True

instance (s : PathState) : (e : Event Request) → Decidable (ImportsAlone s e)
  | .commit _ => inferInstanceAs (Decidable (∀ x ∈ _, _))
  | .start | .request _ _ | .exec _ | .abort _ => .isTrue trivial

/-- The event is no call with a statement time after `t`. -/
def NotAfter (t : ℤ) : Event Request → Prop
  | .request _ r => r.now ≤ t
  | _ => True

section SoundTx

variable {t : ℤ} {d : Db} {x : PathTx}

theorem soundTx_init : SoundTx t d Tx.init where
  times := by simp [Tx.init]
  raised := by simp [Tx.init]
  sound := by simp [Tx.init]
  next := by simp [Tx.init]

theorem SoundTx.send (h : SoundTx t d x) {r : Request} (ht : r.now ≤ t) :
    SoundTx t d (x.send pathSystem r) where
  times := by
    intro r' hr'
    rcases List.mem_cons.mp hr' with rfl | hr'
    · exact ht
    · exact h.times r' hr'
  raised := by
    intro ch hch κ hκ
    rcases h.raised ch hch κ hκ with hlock | ⟨r', hr', himp⟩
    · exact .inl hlock
    · exact .inr ⟨r', List.mem_cons_of_mem r hr', himp⟩
  sound := fun κ hlock himp =>
    h.sound κ hlock fun r' hr' => himp r' (List.mem_cons_of_mem r hr')
  next := by
    intro r' rs hr'
    cases hr'
    exact wellChecked_script.nextChecked

/-- A relation that the transaction has not opened by an import is sound in its view: it is locked, or
what the transaction has changed in it are removals. -/
theorem SoundTx.sound_view (h : SoundTx t d x) (hd : ∀ κ, Sound t d κ) {κ : RelationKey}
    (himp : ∀ r ∈ x.requests, ¬ r.imports κ) : Sound t (pathSystem.view d x) κ := by
  by_cases hlock : κ.lock ∈ x.held
  · exact h.sound κ hlock himp
  · refine (hd κ).mono fun φ hφ => holds_of_not_raised (fun ch hch hκ => ?_) hφ
    rcases h.raised ch hch κ hκ with hlock' | ⟨r, hr, himp'⟩
    · exact hlock hlock'
    · exact himp r hr himp'

/-- What a statement raises is under its lock and leaves the relation sound, unless it imports. -/
theorem exec_raises {V : Db} {r : Request} {held : List Lock} {st : Stmt} {chs : List DbChange}
    {sts : List Stmt} (hnext : Checked t r held st ∨ Ready t V held st)
    (hexec : st.exec r.now r.store V = some (chs, sts)) {ch : DbChange} (hch : ch ∈ chs)
    {κ : RelationKey} (hκ : ch.raises t κ) :
    r.imports κ ∨ κ.lock ∈ held ∧ Sound t (chs.foldl Db.apply V) κ := by
  rcases isRemoval_of_exec hexec hch with hrem | rfl | ⟨op, rfl, hrow⟩
  · exact absurd hκ (not_raises_of_isRemoval hrem)
  · cases hexec
    rcases hnext with h | h
    · exact .inl (h κ hκ)
    · exact .inr (h κ hκ)
  · cases hexec
    obtain ⟨e, -, rfl⟩ := Option.map_eq_some_iff.mp hrow
    obtain ⟨hwild, rfl⟩ := raises_row hκ
    rcases hnext with h | ⟨hlock, hcap⟩
    · rw [show isWildcard op.key = false from h] at hwild
      cases hwild
    · refine .inr ⟨hlock, fun hcap' => ?_⟩
      -- a row leaves the cap as it is
      rw [holds_foldl_apply, hrow] at hcap'
      have : (Fact.cap (pairOf op.key).key).holds t V = true := hcap'
      rw [Fact.holds, hcap] at this
      cases this

/-- A statement sends others that need no lock of the model. -/
theorem nextChecked_append {V : Db} {r : Request} {held : List Lock} {sts todo : List Stmt}
    (hsts : ∀ st ∈ sts, Checked t r [] st) (htodo : WellChecked t r held todo) :
    NextChecked t V r held (sts ++ todo) :=
  ((wellChecked_of_forall hsts).append htodo).nextChecked

/-- A statement sends one that it has let pass. -/
theorem nextChecked_cons {V : Db} {r : Request} {held : List Lock} {st : Stmt} {todo : List Stmt}
    (hst : Checked t r held st ∨ Ready t V held st) (htodo : WellChecked t r held todo) :
    NextChecked t V r held (st :: todo) :=
  ⟨hst, htodo.mono (List.subset_append_left _ _)⟩

/-- The cap of a relation is set after no wildcard has been found on it. -/
theorem ready_constraint {V : Db} {κ : RelationKey} {b : Bounds} {now : ℤ} {held : List Lock}
    (ht : now ≤ t) (hlock : κ.lock ∈ held)
    (hfound : ¬ (V.allowsWildcards κ || V.activeWildcard κ now) = true) :
    Ready t V held (.edit (.constraint κ (some b))) := by
  intro κ' hκ'
  obtain ⟨-, rfl⟩ := raises_constraint hκ'
  refine ⟨hlock, fun _ φ hφ => ?_⟩
  by_contra hne
  rw [holds_apply] at hne
  -- what is open after the edit is open before it, and was so at the time of the check
  have hopen : ∃ φ : Fact, φ.opens κ' ∧ φ.holds now V = true := by
    cases φ with
    | cap κ'' => exact hφ.elim
    | facet store f => exact ⟨_, hφ, by simpa [DbChange.decides, Fact.holds] using hne⟩
    | flagged ρ => exact ⟨_, hφ, by simpa [DbChange.decides, Fact.holds] using hne⟩
    | active k =>
      exact ⟨_, hφ, Db.active_anti ht (by simpa [DbChange.decides, Fact.holds] using hne)⟩
  rcases exists_opens_iff.mp hopen with h | h <;> exact hfound (by rw [h]; simp)

/-- A relation is opened after no cap has been found on it. -/
theorem ready_uncapped {V : Db} {κ : RelationKey} {ch : DbChange} {held : List Lock}
    (hlock : κ.lock ∈ held) (hraise : ∀ κ', ch.raises t κ' → κ' = κ ∧ ch.decides t (.cap κ') = none)
    (hfound : ¬ (V.maxDirect κ).isSome = true) : Ready t V held (.edit ch) := by
  intro κ' hκ'
  obtain ⟨rfl, hdec⟩ := hraise κ' hκ'
  refine ⟨hlock, fun hcap => ?_⟩
  rw [holds_apply, hdec] at hcap
  exact absurd hcap hfound

/-- The statements that are left after a statement. -/
theorem nextChecked_exec {V : Db} {r : Request} {held : List Lock} {st : Stmt} {chs : List DbChange}
    {sts todo : List Stmt} (ht : r.now ≤ t) (hnext : NextChecked t V r held (st :: todo))
    (hexec : st.exec r.now r.store V = some (chs, sts)) :
    NextChecked t (chs.foldl Db.apply V) r (held ++ st.lock?.toList) (sts ++ todo) := by
  obtain ⟨hst, htodo⟩ := hnext
  cases st with
  | require ok =>
    rw [Stmt.exec] at hexec
    split at hexec <;> cases hexec
    exact htodo.nextChecked
  | cappedObjects tuples =>
    cases hexec
    refine nextChecked_append (fun st' hst' => ?_) htodo
    obtain ⟨l, -, rfl⟩ := List.mem_map.mp hst'
    trivial
  -- a wildcard takes the lock of its relation before the guard
  | insertRow op =>
    cases hexec
    split
    · rename_i hwild
      refine ⟨.inl trivial, fun _ => ?_, htodo.mono ?_⟩
      · exact List.mem_append_right _ (List.mem_singleton_self _)
      · exact List.subset_append_of_subset_left _ (List.subset_append_left _ _)
    · rename_i hwild
      exact nextChecked_cons (.inl fun h => absurd h hwild) htodo
  -- without a cap the guard lets the row through, with one it refuses a wildcard
  | capGuard op =>
    have hlock : isWildcard op.key = true → (pairOf op.key).key.lock ∈ held := by
      rcases hst with h | h
      · exact h
      · exact h.elim
    rw [Stmt.exec] at hexec
    split at hexec
    · rename_i hcap
      cases hexec
      refine nextChecked_cons ?_ htodo
      cases hwild : isWildcard op.key with
      | false => exact .inl hwild
      | true => exact .inr ⟨List.mem_append_left _ (hlock hwild), hcap⟩
    · split at hexec <;> cases hexec
      rename_i hwild
      refine ⟨.inl trivial, (Bool.not_eq_true _).mp hwild, htodo.mono ?_⟩
      exact List.subset_append_of_subset_left _ (List.subset_append_left _ _)
  -- what is counted is no wildcard
  | capCount op =>
    have hwild : isWildcard op.key = false := by
      rcases hst with h | h
      · exact h
      · exact h.elim
    rw [Stmt.exec] at hexec
    split at hexec
    · cases hexec
      exact nextChecked_cons (.inl hwild) htodo
    · split at hexec <;> cases hexec
      exact nextChecked_cons (.inl hwild) htodo
  | floors deletes writes =>
    cases hexec
    refine nextChecked_append (fun st' hst' => ?_) htodo
    obtain ⟨p, -, hst'⟩ := List.mem_flatMap.mp hst'
    simp only [List.mem_cons, List.not_mem_nil, or_false] at hst'
    rcases hst' with rfl | rfl <;> trivial
  | floor p deletes writes =>
    rw [Stmt.exec] at hexec
    split at hexec <;> cases hexec
    exact htodo.nextChecked
  | listUser userType userId =>
    cases hexec
    exact nextChecked_cons (.inl trivial) htodo
  -- what was not found stays away while the lock is held
  | checkWildcards objectType relation b =>
    have hlock : RelationKey.lock ⟨r.store, objectType, relation⟩ ∈ held := by
      rcases hst with h | h
      · exact h
      · exact h.elim
    simp only [Stmt.exec] at hexec
    split at hexec <;> cases hexec
    rename_i hfound
    exact nextChecked_cons (.inr (ready_constraint ht (List.mem_append_left _ hlock) hfound)) htodo
  | checkUncapped objectType relation ch =>
    obtain ⟨hlock, hraise⟩ : RelationKey.lock ⟨r.store, objectType, relation⟩ ∈ held ∧
        ∀ κ, ch.raises t κ → κ = ⟨r.store, objectType, relation⟩ ∧ ch.decides t (.cap κ) = none := by
      rcases hst with h | h
      · exact h
      · exact h.elim
    simp only [Stmt.exec] at hexec
    split at hexec <;> cases hexec
    rename_i hfound
    exact nextChecked_cons
      (.inr (ready_uncapped (List.mem_append_left _ hlock) hraise hfound)) htodo
  | modelLocks definition =>
    cases hexec
    refine nextChecked_append (fun st' hst' => ?_) htodo
    obtain ⟨l, -, rfl⟩ := List.mem_map.mp hst'
    trivial
  | staleTypes definition =>
    cases hexec
    refine nextChecked_append (fun st' hst' => ?_) htodo
    obtain ⟨n, -, hst'⟩ := List.mem_flatMap.mp hst'
    simp only [modelRemoveType, List.mem_cons, List.not_mem_nil, or_false] at hst'
    rcases hst' with rfl | rfl <;> trivial
  -- the edits of a removed type only take away
  | removeType objectType force =>
    simp only [Stmt.exec] at hexec
    split at hexec <;> cases hexec
    refine nextChecked_append (fun st' hst' => ?_) htodo
    rcases List.mem_append.mp hst' with hst' | hst'
    · split at hst'
      · rw [List.mem_singleton.mp hst']
        trivial
      · cases hst'
    · obtain ⟨row, -, rfl⟩ := List.mem_map.mp hst'
      exact fun κ hκ => absurd hκ (not_raises_of_isRemoval rfl)
  | _ =>
    cases hexec
    exact htodo.nextChecked

/-- **A statement of an open transaction.** -/
theorem SoundTx.exec (h : SoundTx t d x) (hd : ∀ κ, Sound t d κ) {st : Stmt} {todo : List Stmt}
    {r : Request} {rs : List Request} {chs : List DbChange} {sts : List Stmt}
    (htodo : x.todo = st :: todo) (hreq : x.requests = r :: rs)
    (hexec : st.exec r.now r.store (pathSystem.view d x) = some (chs, sts)) :
    SoundTx t d (x.next st.lock? chs (sts ++ todo)) := by
  have hview : pathSystem.view d (x.next st.lock? chs (sts ++ todo)) =
      chs.foldl Db.apply (pathSystem.view d x) := List.foldl_append
  have hmem : r ∈ x.requests := hreq ▸ List.mem_cons_self
  have hnext := h.next r rs hreq
  rw [htodo] at hnext
  refine ⟨h.times, ?_, ?_, ?_⟩
  · intro ch hch κ hκ
    rcases List.mem_append.mp hch with hch | hch
    · exact (h.raised ch hch κ hκ).imp_left fun hlock => List.mem_append_left _ hlock
    · rcases exec_raises hnext.1 hexec hch hκ with himp | ⟨hlock, -⟩
      · exact .inr ⟨r, hmem, himp⟩
      · exact .inl (List.mem_append_left _ hlock)
  · intro κ _ himp
    rw [hview]
    by_cases hraise : ∃ ch ∈ chs, ch.raises t κ
    · obtain ⟨ch, hch, hκ⟩ := hraise
      rcases exec_raises hnext.1 hexec hch hκ with himp' | ⟨-, hsound⟩
      · exact absurd himp' (himp r hmem)
      · exact hsound
    · refine (h.sound_view hd himp).mono fun φ hφ => holds_of_not_raised (fun ch hch hκ => ?_) hφ
      exact hraise ⟨ch, hch, hκ⟩
  · intro r' rs' hr'
    cases hreq.symm.trans hr'
    rw [hview]
    exact nextChecked_exec (h.times r hmem) hnext hexec

/-- **Beside a commit**: what another transaction commits raises no fact about a relation that the
transaction has locked. -/
theorem SoundTx.beside {y : PathTx} (hx : SoundTx t d x) (hy : SoundTx t d y)
    (hc : pathSystem.Compatible x y)
    (himp : ∀ κ, (∃ r ∈ x.requests, r.imports κ) → κ.lock ∉ y.held) :
    SoundTx t (pathSystem.view d x) y := by
  have hfree : ∀ κ, κ.lock ∈ y.held → ∀ ch ∈ x.changes, ¬ ch.raises t κ := by
    intro κ hlock ch hch hκ
    rcases hx.raised ch hch κ hκ with hlock' | himp'
    · have := hc _ hlock' _ hlock
      simp [pathSystem, RelationKey.lock, Lock.conflicts] at this
    · exact himp κ himp' hlock
  refine ⟨hy.times, hy.raised, ?_, ?_⟩
  · intro κ hlock himp'
    exact (hy.sound κ hlock himp').mono fun φ hφ => holds_beside (hfree κ hlock) hφ
  · intro r rs hr
    have hnext := hy.next r rs hr
    cases htodo : y.todo with
    | nil => trivial
    | cons st todo =>
      rw [htodo] at hnext
      refine ⟨hnext.1.imp_right fun hready => ?_, hnext.2⟩
      cases st with
      | putRow op =>
        obtain ⟨hlock, hcap⟩ := hready
        refine ⟨hlock, ?_⟩
        by_contra hne
        have hholds : (Fact.cap (pairOf op.key).key).holds t
            (pathSystem.view (pathSystem.view d x) y) = true :=
          Option.isSome_iff_ne_none.mpr hne
        have := holds_beside (hfree _ hlock) (.inl rfl) hholds
        rw [Fact.holds, show (y.changes.foldl Db.apply d).maxDirect _ = none from hcap] at this
        cases this
      | edit ch =>
        intro κ hκ
        obtain ⟨hlock, hsound⟩ := hready κ hκ
        refine ⟨hlock, hsound.mono fun φ hφ hholds => ?_⟩
        have hafter : φ.holds t ((y.changes ++ [ch]).foldl Db.apply (pathSystem.view d x)) = true := by
          rw [List.foldl_append]
          exact hholds
        have := holds_beside (hfree κ hlock) hφ hafter
        rwa [List.foldl_append] at this
      | _ => exact hready.elim

end SoundTx

/-- The invariant of runs in which imports do no harm. -/
def soundInvariant (t : ℤ) :
    Invariant pathSystem fun s e => NotAfter t e ∧ ImportsAlone s e where
  db d := ∀ κ, Sound t d κ
  tx := SoundTx t
  start _ := soundTx_init
  request _ _ h _ hok := h.send hok.1
  exec _ hd h htodo hreq _ hexec := h.exec hd htodo hreq hexec
  commit := by
    intro s i x hx hd h _ hok κ
    by_cases himp : ∃ r ∈ x.requests, r.imports κ
    · intro hcap
      rw [Fact.holds, (hok.2 x hx κ (List.mem_flatMap.mpr himp)).1] at hcap
      cases hcap
    · exact h.sound_view hd fun r hr himp' => himp ⟨r, hr, himp'⟩
  beside hx _ h _ hok hy hty hc := h.beside hty hc fun κ himp =>
    (hok.2 _ hx κ (List.mem_flatMap.mpr himp)).2 _ hy

/-- **A cap excludes wildcards.** In every run in which a commit of an import finds every relation
that it opens without a cap, and no other transaction with its lock, no relation has a cap together
with a wildcard facet, a rule for object wildcards or an active wildcard tuple, if none had at
first. -/
theorem cap_excludes_wildcards {t : ℤ} {d₀ : Db} {es : List (Event Request)} {s : PathState}
    (h₀ : ∀ κ, (d₀.maxDirect κ).isSome = true →
      d₀.allowsWildcards κ = false ∧ d₀.activeWildcard κ t = false)
    (hes : ∀ e ∈ es, NotAfter t e)
    (himports : Along (step pathSystem) ImportsAlone (State.init d₀) es)
    (hrun : run (step pathSystem) (State.init d₀) es = some s) (κ : RelationKey)
    (hcap : (s.db.maxDirect κ).isSome = true) :
    s.db.allowsWildcards κ = false ∧ s.db.activeWildcard κ t = false := by
  have hinit : (soundInvariant t).Holds (State.init d₀) :=
    Invariant.holds_init fun κ => sound_iff.mpr (h₀ κ)
  have hinv := (soundInvariant t).run hinit ((along_of_forall hes).and himports) hrun
  exact sound_iff.mp (hinv.db κ) hcap

/-! ## Imports -/

/-- A store with users and documents, whose viewers are assigned by tuples. -/
def documentsDb : Db :=
  ⟨[⟨1, 1, true⟩, ⟨1, 2, true⟩], ∅, [], [(1, ⟨2, 3, 1, none, false, none⟩)],
    [⟨1, ⟨2, 3, .direct, 0, .or, false⟩, false⟩]⟩

/-- The viewers of documents in an OpenFGA model: users, or all users. -/
def importedViewers (wildcard : Bool) : PathCall :=
  .importOpenfgaModel [1, 2] [⟨2, 3, [⟨2, 3, .direct, 0, .or, false⟩], [⟨1, none, wildcard, none⟩]⟩]

/-- The viewers are capped, and then a model is imported. -/
def cappedThenImported (wildcard : Bool) : List (Event Request) :=
  [.start, .request 0 ⟨5, 1, .modelSetRelationConstraint 2 3 ⟨some 2, none⟩⟩, .exec 0, .exec 0,
    .exec 0, .commit 0, .start, .request 0 ⟨6, 1, importedViewers wildcard⟩, .exec 0, .exec 0,
    .exec 0, .exec 0, .exec 0, .commit 0]

/-- A model without wildcards is imported over the cap. -/
theorem cap_excludes_wildcards_import :
    ∃ s, run (step pathSystem) (State.init documentsDb) (cappedThenImported false) = some s ∧
      (s.db.maxDirect ⟨1, 2, 3⟩).isSome = true ∧ s.db.allowsWildcards ⟨1, 2, 3⟩ = false := by
  have hany : (run (step pathSystem) (State.init documentsDb) (cappedThenImported false)).any
      (fun s => (s.db.maxDirect ⟨1, 2, 3⟩).isSome) = true := by
    decide +kernel
  obtain ⟨s, hs, hcap⟩ := (Option.any_eq_true _ _).mp hany
  have hes : ∀ e ∈ cappedThenImported false, NotAfter 6 e := by
    simp [cappedThenImported, NotAfter]
  have hok : Along (step pathSystem) ImportsAlone (State.init documentsDb)
      (cappedThenImported false) := by
    decide +kernel
  have h₀ : ∀ κ, (documentsDb.maxDirect κ).isSome = true →
      documentsDb.allowsWildcards κ = false ∧ documentsDb.activeWildcard κ 6 = false := by
    intro κ hκ
    cases hκ
  exact ⟨s, hs, hcap, (cap_excludes_wildcards h₀ hes hok hs _ hcap).1⟩

/-- **An import puts a wildcard facet on a capped relation.** -/
theorem imported_facet_beside_cap :
    ∃ s, run (step pathSystem) (State.init documentsDb) (cappedThenImported true) = some s ∧
      (s.db.maxDirect ⟨1, 2, 3⟩).isSome = true ∧ s.db.allowsWildcards ⟨1, 2, 3⟩ = true := by
  have hany : (run (step pathSystem) (State.init documentsDb) (cappedThenImported true)).any
      (fun s => (s.db.maxDirect ⟨1, 2, 3⟩).isSome && s.db.allowsWildcards ⟨1, 2, 3⟩) = true := by
    decide +kernel
  obtain ⟨s, hs, hboth⟩ := (Option.any_eq_true _ _).mp hany
  exact ⟨s, hs, (Bool.and_eq_true _ _).mp hboth⟩

end PgAuthz.Paths
