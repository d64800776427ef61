import PgAuthz.Daemon.Issuers

/-!
# The stores that a token reaches

A row of the database may narrow the stores of an issuer of the environment, and it may bring an
issuer for the stores of a group. In the list of patterns that an issuer ends up with, the empty list
means that every store is reached. A row with an empty list cannot replace the list of an issuer that
has one. But the members of an empty store group are an empty list too, so the tokens of its issuer
reach every store.

## Main definitions

* `appliedRow`, `mergedEntry`: an entry of the environment after the merge
* `NeverWidens`: the tokens of an issuer reach only the stores of its list, or of its group
* `RowInForce`: a row that the merge applies

## Main results

* `mergeWith_mem`: the entries of a merge
* `bindings_never_widen_iff`: the merge never widens exactly if no group with a row in force is empty,
  and an entry without a name, if it is the only one, lists every store
-/

namespace PgAuthz.Daemon

/-! ## Covered patterns -/

section Patterns

variable {lib : GoLib} {pattern s : String}

/-- **What a covered pattern matches, one of the covering patterns matches.** -/
theorem covered_matches {within : List String} (h : covered lib pattern within = true)
    (hs : lib.matchesPattern pattern s = true) : ∃ w ∈ within, lib.matchesPattern w s = true := by
  obtain ⟨w, hw, hcov⟩ := List.any_eq_true.mp h
  refine ⟨w, hw, ?_⟩
  simp only [Bool.or_eq_true, beq_iff_eq, Bool.and_eq_true, Bool.not_eq_true'] at hcov
  rcases hcov with rfl | ⟨hplain, hmatch⟩
  · exact hs
  · -- a plain name matches itself only
    rw [GoLib.matchesPattern, lib.anchored_plain pattern hplain] at hs
    simp only [Option.any_some, beq_iff_eq] at hs
    rw [hs]
    exact hmatch

theorem containsAny_plainName {name : String} (h : plainName name = true) :
    containsAny name regexMeta = false := by
  unfold plainName at h
  unfold containsAny
  have hchar : ∀ c : Char, (c.isAlphanum || c == '_') = true →
      regexMeta.toList.contains c = false := by
    intro c hc
    rw [Bool.eq_false_iff]
    intro hmem
    have hmem : c ∈ regexMeta.toList := by simpa using hmem
    have hall : regexMeta.toList.all (fun d => !(d.isAlphanum || d == '_')) = true := by rfl
    have hnot := List.all_eq_true.mp hall c hmem
    simp only [hc, Bool.not_true, Bool.false_eq_true] at hnot
  cases hl : name.toList with
  | nil => rfl
  | cons c cs =>
    rw [hl] at h
    simp only [Bool.and_eq_true, Bool.or_eq_true, List.all_eq_true, decide_eq_true_eq] at h
    rw [List.any_eq_false]
    intro d hd
    rw [hchar d]
    · decide
    rcases List.mem_cons.mp hd with rfl | hd
    · rcases h.1.1 with halpha | hunder
      · simp [Char.isAlphanum, halpha]
      · simp [hunder]
    · simpa using h.1.2 d hd

theorem matchesPattern_plainName {name : String} (h : plainName name = true) :
    lib.matchesPattern name s = true ↔ s = name := by
  rw [GoLib.matchesPattern, lib.anchored_plain name (containsAny_plainName h)]
  simp

end Patterns

/-! ## The entries of a merge -/

variable {lib : GoLib} {env : List Issuer} {rows : List Binding} {opts : MergeOptions}

/-- The row that the merge applies to an entry of the environment. -/
def appliedRow (lib : GoLib) (rows : List Binding) (e : Issuer) : Option Binding :=
  (if e.issuer = "" then none else rowOf rows e.issuer).filter fun row =>
    narrowing lib e.stores row.stores && (validateBindings lib (e.withRow row "")).isNone

/-- An entry of the environment after the merge, up to its alias. -/
def mergedEntry (lib : GoLib) (rows : List Binding) (e : Issuer) (aliasName : String) : Issuer :=
  match appliedRow lib rows e with
  | none => { e with bindingSource := .env, anchorSource := .env, aliasName := aliasName }
  | some row => e.withRow row aliasName

theorem mergeEntry_eq (aliases : Aliases) (e : Issuer) :
    ∃ a, (mergeEntry lib rows aliases e).2 = mergedEntry lib rows e a := by
  unfold mergeEntry mergedEntry appliedRow
  cases (if e.issuer = "" then none else rowOf rows e.issuer) with
  | none => exact ⟨e.aliasName, rfl⟩
  | some row =>
    dsimp only
    -- the checks of a row do not look at the alias
    have hvalid : ∀ a, validateBindings lib (e.withRow row a) =
        validateBindings lib (e.withRow row "") := fun _ => rfl
    rw [hvalid, Option.filter_some]
    split
    · exact ⟨_, rfl⟩
    · exact ⟨_, rfl⟩

/-- **The entries of the environment**, one by one. -/
theorem mergeEnv_forall₂ (aliases : Aliases) :
    List.Forall₂ (fun e m => ∃ a, m = mergedEntry lib rows e a) env
      (mergeEnv lib rows aliases env).2 := by
  induction env generalizing aliases with
  | nil => exact .nil
  | cons e es ih => exact .cons (mergeEntry_eq aliases e) (ih _)

/-- A row is admitted as a group issuer, whatever its alias. -/
theorem groupIssuerAdmitted_alias (row : Binding) (a : String) :
    groupIssuerAdmitted lib opts row a = groupIssuerAdmitted lib opts row "" := rfl

theorem groupIssuerAdmitted_named {row : Binding} {a : String}
    (h : groupIssuerAdmitted lib opts row a = true) : row.storeGroup ≠ "" ∧ row.jwksUrl ≠ "" := by
  simp only [groupIssuerAdmitted, Bool.and_eq_true, bne_iff_ne] at h
  exact ⟨h.1.1.1.1.1.1, h.1.1.1.1.1.2⟩

/-- **The group issuers.** -/
theorem mem_mergeGroups {aliases : Aliases} {isss : List String} {m : Issuer}
    (h : m ∈ mergeGroups lib opts rows aliases isss) :
    ∃ iss ∈ isss, ∃ row, rowOf rows iss = some row ∧
      groupIssuerAdmitted lib opts row "" = true ∧ ∃ a, m = groupIssuer row a := by
  induction isss generalizing aliases with
  | nil => cases h
  | cons iss isss ih =>
    have hrest : ∀ {aliases}, m ∈ mergeGroups lib opts rows aliases isss → _ := fun h =>
      (ih h).imp fun iss' hiss' => And.imp_left (List.mem_cons_of_mem iss) hiss'
    unfold mergeGroups at h
    cases hrow : rowOf rows iss with
    | none =>
      simp only [hrow] at h
      exact hrest h
    | some row =>
      simp only [hrow] at h
      split at h
      · exact hrest h
      · split at h
        · rename_i hadm
          rcases List.mem_cons.mp h with rfl | h
          · exact ⟨iss, List.mem_cons_self .., row, hrow, hadm, _, rfl⟩
          · exact hrest h
        · exact hrest h

theorem exists_mem_mergeGroups {aliases : Aliases} {isss : List String} {iss : String}
    (hiss : iss ∈ isss) {row : Binding} (hrow : rowOf rows iss = some row)
    (hadm : groupIssuerAdmitted lib opts row "" = true) :
    ∃ a, groupIssuer row a ∈ mergeGroups lib opts rows aliases isss := by
  induction isss generalizing aliases with
  | nil => cases hiss
  | cons iss' isss ih =>
    unfold mergeGroups
    rcases List.mem_cons.mp hiss with rfl | hiss
    · obtain ⟨hgroup, hjwks⟩ := groupIssuerAdmitted_named hadm
      simp only [hrow]
      rw [if_neg (not_or.mpr ⟨hgroup, hjwks⟩), groupIssuerAdmitted_alias, if_pos hadm]
      exact ⟨_, List.mem_cons_self ..⟩
    · cases rowOf rows iss' with
      | none => exact ih hiss
      | some row' =>
        dsimp only
        split
        · exact ih hiss
        · split
          · obtain ⟨a, ha⟩ := ih hiss
            exact ⟨a, List.mem_cons_of_mem _ ha⟩
          · exact ih hiss

theorem mem_unknownIssuers {iss : String} :
    iss ∈ unknownIssuers env rows ↔
      (∃ row ∈ rows, row.issuer = iss) ∧ (iss = "" ∨ ∀ e ∈ env, e.issuer ≠ iss) := by
  simp [unknownIssuers, List.mem_insertionSort]

theorem rowOf_mem {iss : String} {row : Binding} (h : rowOf rows iss = some row) :
    row ∈ rows ∧ row.issuer = iss := by
  have hname := List.find?_some h
  simp only [decide_eq_true_eq] at hname
  exact ⟨List.mem_reverse.mp (List.mem_of_find?_eq_some h), hname⟩

/-! ## The entries in force -/

section Tables

variable {t : IssuerTables}

theorem mem_members {group s : String} :
    s ∈ t.members group ↔ ∃ st ∈ t.stores, st.group = some group ∧ st.name = s := by
  simp [IssuerTables.members, List.mem_insertionSort, and_assoc]

theorem mem_listIssuerBindings {row : Binding} :
    row ∈ t.listIssuerBindings ↔ ∃ b ∈ t.rows, row = if b.storeGroup = "" then b else
      { b with stores := t.members b.storeGroup } := by
  rw [IssuerTables.listIssuerBindings, List.mem_insertionSort, List.mem_map]
  exact exists_congr fun b => and_congr_right fun _ => eq_comm

/-- The rows that the daemon reads: named, one for each issuer, and with the members of their
group. -/
theorem listIssuerBindings_group {row : Binding} (h : row ∈ t.listIssuerBindings) :
    row.issuer ≠ "" ∧ (row.storeGroup ≠ "" → row.stores = t.members row.storeGroup) := by
  obtain ⟨b, hb, rfl⟩ := mem_listIssuerBindings.mp h
  have hne := t.issuer_ne b hb
  by_cases hgroup : b.storeGroup = ""
  · rw [if_pos hgroup]
    exact ⟨hne, fun h => absurd hgroup h⟩
  · rw [if_neg hgroup]
    exact ⟨hne, fun _ => rfl⟩

theorem listIssuerBindings_inj {row row' : Binding} (h : row ∈ t.listIssuerBindings)
    (h' : row' ∈ t.listIssuerBindings) (heq : row.issuer = row'.issuer) : row = row' := by
  obtain ⟨b, hb, rfl⟩ := mem_listIssuerBindings.mp h
  obtain ⟨b', hb', rfl⟩ := mem_listIssuerBindings.mp h'
  have hname : b.issuer = b'.issuer := by
    revert heq
    split <;> split <;> exact fun heq => heq
  have hb : b = b' := List.inj_on_of_nodup_map t.issuer_nodup hb hb' hname
  rw [hb]

theorem rowOf_listIssuerBindings {row : Binding} (h : row ∈ t.listIssuerBindings) :
    rowOf t.listIssuerBindings row.issuer = some row := by
  unfold rowOf
  cases hfind : t.listIssuerBindings.reverse.find? fun r => decide (r.issuer = row.issuer) with
  | none =>
    have hnone := List.find?_eq_none.mp hfind row (List.mem_reverse.mpr h)
    simp at hnone
  | some row' =>
    obtain ⟨hmem, hname⟩ := rowOf_mem hfind
    rw [listIssuerBindings_inj hmem h hname]

end Tables

/-! ## Never wider than the environment and the group -/

/-- The issuers in force after the merge of a database over an environment. -/
def issuersInForce (lib : GoLib) (env : List Issuer) (t : IssuerTables) (opts : MergeOptions) :
    List Issuer :=
  mergeWith lib env t.listIssuerBindings opts

/-- **Bindings never widen**: a token that an entry of the environment with a store list verifies is
admitted only to stores that the list covers, and a token of an issuer that a row binds to a store
group only to the members of the group. -/
structure NeverWidens (lib : GoLib) (env : List Issuer) (t : IssuerTables) (opts : MergeOptions) :
    Prop where
  environment : ∀ e m, (e, m) ∈ env.zip (issuersInForce lib env t opts) → e.stores ≠ [] →
    ∀ iss store, pickValidator (newIssuerSet (issuersInForce lib env t opts)) iss = some m →
      storeChecked lib (newIssuerSet (issuersInForce lib env t opts)) iss store = true →
      ∃ w ∈ e.stores, lib.matchesPattern w store = true
  group : ∀ m ∈ issuersInForce lib env t opts, m.bindingSource = .db → m.storeGroup ≠ "" →
    ∀ iss store, pickValidator (newIssuerSet (issuersInForce lib env t opts)) iss = some m →
      storeChecked lib (newIssuerSet (issuersInForce lib env t opts)) iss store = true →
      store ∈ t.members m.storeGroup

/-- The merge applies a row: to an entry of the environment, or as a group issuer. -/
def RowInForce (lib : GoLib) (env : List Issuer) (opts : MergeOptions) (row : Binding) : Prop :=
  (∃ e ∈ env, e.issuer = row.issuer ∧ narrowing lib e.stores row.stores = true ∧
    validateBindings lib (e.withRow row "") = none) ∨
  ((∀ e ∈ env, e.issuer ≠ row.issuer) ∧ groupIssuerAdmitted lib opts row "" = true)

/-- No group that an enabled row in force names is empty. -/
def GroupsInhabited (lib : GoLib) (env : List Issuer) (t : IssuerTables) (opts : MergeOptions) :
    Prop :=
  ∀ row ∈ t.listIssuerBindings, row.storeGroup ≠ "" → row.enabled = true →
    RowInForce lib env opts row → t.members row.storeGroup ≠ []

/-- An entry without a name, if it is the only one and no group issuer is admitted beside it, has no
store list or one that covers every store. -/
def UnpinnedUnrestricted (lib : GoLib) (env : List Issuer) (t : IssuerTables) (opts : MergeOptions) :
    Prop :=
  ∀ e, env = [e] → e.issuer = "" →
    (∀ row ∈ t.listIssuerBindings, groupIssuerAdmitted lib opts row "" = false) → e.stores ≠ [] →
      ∀ store, ∃ w ∈ e.stores, lib.matchesPattern w store = true

section Reach

variable {t : IssuerTables}

/-- **The issuers in force**: the entries of the environment in their order, and then the group
issuers of the admitted rows. -/
theorem issuersInForce_split (lib : GoLib) (env : List Issuer) (t : IssuerTables)
    (opts : MergeOptions) : ∃ ms gs, issuersInForce lib env t opts = ms ++ gs ∧
    List.Forall₂ (fun e m => ∃ a, m = mergedEntry lib t.listIssuerBindings e a) env ms ∧
    (∀ m ∈ gs, ∃ row ∈ t.listIssuerBindings, (∀ e ∈ env, e.issuer ≠ row.issuer) ∧
      groupIssuerAdmitted lib opts row "" = true ∧ ∃ a, m = groupIssuer row a) ∧
    ∀ row ∈ t.listIssuerBindings, (∀ e ∈ env, e.issuer ≠ row.issuer) →
      groupIssuerAdmitted lib opts row "" = true → ∃ a, groupIssuer row a ∈ gs := by
  refine ⟨_, _, rfl, mergeEnv_forall₂ _, fun m hm => ?_, fun row hrow hne hadm => ?_⟩
  · obtain ⟨iss, hiss, row, hrow, hadm, ha⟩ := mem_mergeGroups hm
    obtain ⟨hmem, rfl⟩ := rowOf_mem hrow
    refine ⟨row, hmem, fun e he => ?_, hadm, ha⟩
    rcases (mem_unknownIssuers.mp hiss).2 with hempty | hunknown
    · exact absurd hempty (listIssuerBindings_group hmem).1
    · exact hunknown e he
  · exact exists_mem_mergeGroups (mem_unknownIssuers.mpr ⟨⟨row, hrow, rfl⟩, .inr hne⟩)
      (rowOf_listIssuerBindings hrow) hadm

theorem forall₂_mem_right {α β : Type} {R : α → β → Prop} {as : List α} {bs : List β}
    (h : List.Forall₂ R as bs) {b : β} (hb : b ∈ bs) : ∃ a ∈ as, R a b := by
  induction h with
  | nil => cases hb
  | cons hab _ ih =>
    rcases List.mem_cons.mp hb with rfl | hb
    · exact ⟨_, List.mem_cons_self .., hab⟩
    · obtain ⟨a, ha, hR⟩ := ih hb
      exact ⟨a, List.mem_cons_of_mem _ ha, hR⟩

theorem forall₂_mem_left {α β : Type} {R : α → β → Prop} {as : List α} {bs : List β}
    (h : List.Forall₂ R as bs) {a : α} (ha : a ∈ as) : ∃ b ∈ bs, R a b := by
  obtain ⟨b, hb, hR⟩ := forall₂_mem_right h.flip ha
  exact ⟨b, hb, hR⟩

theorem mem_zip_inForce {e m : Issuer} (h : (e, m) ∈ env.zip (issuersInForce lib env t opts)) :
    e ∈ env ∧ ∃ a, m = mergedEntry lib t.listIssuerBindings e a := by
  obtain ⟨ms, gs, hsplit, henv, -, -⟩ := issuersInForce_split lib env t opts
  rw [hsplit, ← List.append_nil env, List.zip_append henv.length_eq, List.zip_nil_left,
    List.append_nil] at h
  exact ⟨(List.of_mem_zip h).1, List.forall₂_zip henv h⟩

theorem appliedRow_eq_some {e : Issuer} {row : Binding}
    (h : appliedRow lib t.listIssuerBindings e = some row) :
    row ∈ t.listIssuerBindings ∧ e.issuer = row.issuer ∧ e.issuer ≠ "" ∧
      narrowing lib e.stores row.stores = true ∧ validateBindings lib (e.withRow row "") = none := by
  unfold appliedRow at h
  rw [Option.filter_eq_some_iff] at h
  obtain ⟨hrow, hok⟩ := h
  split at hrow
  · cases hrow
  · rename_i hname
    obtain ⟨hmem, heq⟩ := rowOf_mem hrow
    simp only [Bool.and_eq_true, Option.isNone_iff_eq_none] at hok
    exact ⟨hmem, heq.symm, hname, hok⟩

theorem appliedRow_of_valid {e : Issuer} {row : Binding} (hrow : row ∈ t.listIssuerBindings)
    (heq : e.issuer = row.issuer) (hnarrow : narrowing lib e.stores row.stores = true)
    (hvalid : validateBindings lib (e.withRow row "") = none) :
    appliedRow lib t.listIssuerBindings e = some row := by
  unfold appliedRow
  have hne : e.issuer ≠ "" := heq ▸ (listIssuerBindings_group hrow).1
  rw [if_neg hne, heq, rowOf_listIssuerBindings hrow, Option.filter_some, hnarrow, hvalid]
  rfl

/-- **A row narrows**: the list of an entry that has one stays a list of covered patterns. -/
theorem mergedEntry_stores (lib : GoLib) (t : IssuerTables) (a : String) {e : Issuer}
    (he : e.stores ≠ []) :
    (mergedEntry lib t.listIssuerBindings e a).stores ≠ [] ∧
      ∀ p ∈ (mergedEntry lib t.listIssuerBindings e a).stores,
        ∀ store, lib.matchesPattern p store = true →
          ∃ w ∈ e.stores, lib.matchesPattern w store = true := by
  unfold mergedEntry
  cases hrow : appliedRow lib t.listIssuerBindings e with
  | none => exact ⟨he, fun p hp store hs => ⟨p, hp, hs⟩⟩
  | some row =>
    obtain ⟨-, -, -, hnarrow, -⟩ := appliedRow_eq_some hrow
    have hempty : e.stores.isEmpty = false := by simpa using he
    simp only [narrowing, hempty, Bool.false_or, Bool.and_eq_true, Bool.not_eq_true',
      List.all_eq_true] at hnarrow
    refine ⟨?_, fun p hp store hs => covered_matches (hnarrow.2 p hp) hs⟩
    show row.stores ≠ []
    simpa using hnarrow.1

/-- An issuer in force that is bound to a group: its row is in force. -/
theorem groupBound_row {m : Issuer} (hm : m ∈ issuersInForce lib env t opts)
    (hdb : m.bindingSource = .db) :
    ∃ row ∈ t.listIssuerBindings, RowInForce lib env opts row ∧ m.issuer = row.issuer ∧
      m.stores = row.stores ∧ m.storeGroup = row.storeGroup ∧ m.disabled = !row.enabled := by
  obtain ⟨ms, gs, hsplit, henv, hgroups, -⟩ := issuersInForce_split lib env t opts
  rw [hsplit] at hm
  rcases List.mem_append.mp hm with hm | hm
  · obtain ⟨e, he, a, rfl⟩ := forall₂_mem_right henv hm
    unfold mergedEntry at hdb ⊢
    cases hrow : appliedRow lib t.listIssuerBindings e with
    | none =>
      rw [hrow] at hdb
      cases hdb
    | some row =>
      obtain ⟨hmem, heq, -, hok⟩ := appliedRow_eq_some hrow
      exact ⟨row, hmem, .inl ⟨e, he, heq, hok⟩, heq, rfl, rfl, rfl⟩
  · obtain ⟨row, hrow, hne, hadm, a, rfl⟩ := hgroups m hm
    exact ⟨row, hrow, .inr ⟨hne, hadm⟩, rfl, rfl, rfl, rfl⟩

/-- The stores that a checked request reaches through a list in force. -/
theorem matches_of_storeChecked {cfgs : List Issuer} {iss store : String} {m : Issuer}
    (hpick : (newIssuerSet cfgs).byIssuer.lookup iss = some m) (hne : m.stores ≠ [])
    (h : storeChecked lib (newIssuerSet cfgs) iss store = true) :
    ∃ p ∈ m.stores, lib.matchesPattern p store = true := by
  obtain ⟨-, -, -, hstores⟩ := storesInForce_last hpick
  rw [storeChecked, hstores hne] at h
  exact List.any_eq_true.mp h

/-- A single issuer in force is the only entry of the environment, and no group issuer is admitted
beside it. -/
theorem inForce_singleton {m : Issuer} (h : issuersInForce lib env t opts = [m]) (henv : env ≠ []) :
    (∃ e a, env = [e] ∧ m = mergedEntry lib t.listIssuerBindings e a) ∧
      ∀ row ∈ t.listIssuerBindings, (∀ e ∈ env, e.issuer ≠ row.issuer) →
        groupIssuerAdmitted lib opts row "" = false := by
  obtain ⟨ms, gs, hsplit, hms, -, hadm⟩ := issuersInForce_split lib env t opts
  have hlen := hms.length_eq
  rw [hsplit] at h
  cases hms with
  | nil => exact absurd rfl henv
  | @cons e m' es ms' hem htail =>
    obtain ⟨rfl, hnil⟩ := List.cons.inj h
    obtain ⟨rfl, rfl⟩ := List.append_eq_nil_iff.mp hnil
    cases htail
    obtain ⟨a, ha⟩ := hem
    refine ⟨⟨e, a, rfl, ha⟩, fun row hrow hne => ?_⟩
    rw [Bool.eq_false_iff]
    intro hrowadm
    obtain ⟨a', ha'⟩ := hadm row hrow hne hrowadm
    cases ha'

theorem mergedEntry_issuer (e : Issuer) (a : String) :
    (mergedEntry lib t.listIssuerBindings e a).issuer = e.issuer := by
  unfold mergedEntry
  split <;> rfl

/-- The condition is enough. -/
theorem neverWidens_of_inhabited (hg : GroupsInhabited lib env t opts)
    (hu : UnpinnedUnrestricted lib env t opts) : NeverWidens lib env t opts where
  environment e m hzip hlist iss store hpick hcheck := by
    obtain ⟨he, a, rfl⟩ := mem_zip_inForce hzip
    rcases pickValidator_cases hpick with ⟨-, hlookup⟩ | ⟨hsingle, hname⟩
    · obtain ⟨hne, hcovered⟩ := mergedEntry_stores lib t a hlist
      obtain ⟨p, hp, hmatch⟩ := matches_of_storeChecked hlookup hne hcheck
      exact hcovered p hp store hmatch
    · -- the entry has no name, so its list is not looked up
      obtain ⟨⟨e', a', rfl, -⟩, hadm⟩ := inForce_singleton hsingle (List.ne_nil_of_mem he)
      obtain rfl := List.mem_singleton.mp he
      rw [mergedEntry_issuer] at hname
      refine hu e rfl hname (fun row hrow => hadm row hrow fun e' he' => ?_) hlist store
      rw [List.mem_singleton.mp he', hname]
      exact (listIssuerBindings_group hrow).1.symm
  group m hm hdb hgroup iss store hpick hcheck := by
    obtain ⟨row, hrow, hforce, hissuer, hstores, hrowgroup, hdisabled⟩ := groupBound_row hm hdb
    rcases pickValidator_cases hpick with ⟨hdis, hlookup⟩ | ⟨-, hname⟩
    · obtain ⟨-, hname, hne, -⟩ := storesInForce_last hlookup
      have henabled : row.enabled = true := by
        by_contra hoff
        refine hdis (mem_disabled.mpr ⟨hne, m, hm, hname, ?_⟩)
        rw [hdisabled]
        simpa using hoff
      rw [hrowgroup] at hgroup ⊢
      have hmembers : m.stores = t.members row.storeGroup :=
        hstores.trans ((listIssuerBindings_group hrow).2 hgroup)
      have hinhabited : m.stores ≠ [] := hmembers ▸ hg row hrow hgroup henabled hforce
      obtain ⟨p, hp, hmatch⟩ := matches_of_storeChecked hlookup hinhabited hcheck
      rw [hmembers] at hp
      obtain ⟨st, hst, -, rfl⟩ := mem_members.mp hp
      rw [(matchesPattern_plainName (t.store_plain st hst)).mp hmatch]
      exact hp
    · exact absurd (hissuer.symm.trans hname) (listIssuerBindings_group hrow).1

/-- A row in force is applied to every entry with its issuer, if the issuers of the environment are
distinct. -/
theorem bindingSource_of_rowInForce (hnodup : (env.map (·.issuer)).Nodup) {row : Binding}
    (hrow : row ∈ t.listIssuerBindings) (hforce : RowInForce lib env opts row) :
    (∃ ic ∈ issuersInForce lib env t opts, ic.issuer = row.issuer) ∧
      ∀ ic ∈ issuersInForce lib env t opts, ic.issuer = row.issuer → ic.bindingSource = .db := by
  obtain ⟨ms, gs, hsplit, henv, hgroups, hadm⟩ := issuersInForce_split lib env t opts
  rw [hsplit]
  have hgroup : ∀ ic ∈ gs, ic.bindingSource = .db := by
    intro ic hic
    obtain ⟨-, -, -, -, a, rfl⟩ := hgroups ic hic
    rfl
  rcases hforce with ⟨e, he, heq, hnarrow, hvalid⟩ | ⟨hne, hadmitted⟩
  · have happlied := appliedRow_of_valid hrow heq hnarrow hvalid
    constructor
    · obtain ⟨m, hm, a, rfl⟩ := forall₂_mem_left henv he
      exact ⟨_, List.mem_append_left _ hm, (mergedEntry_issuer e a).trans heq⟩
    · intro ic hic hname
      rcases List.mem_append.mp hic with hic | hic
      · obtain ⟨e', he', a, rfl⟩ := forall₂_mem_right henv hic
        rw [mergedEntry_issuer] at hname
        -- there is one entry with this issuer
        obtain rfl := List.inj_on_of_nodup_map hnodup he' he (hname.trans heq.symm)
        rw [mergedEntry, happlied]
        rfl
      · exact hgroup ic hic
  · constructor
    · obtain ⟨a, ha⟩ := hadm row hrow hne hadmitted
      exact ⟨_, List.mem_append_right _ ha, rfl⟩
    · intro ic hic hname
      rcases List.mem_append.mp hic with hic | hic
      · obtain ⟨e', he', a, rfl⟩ := forall₂_mem_right henv hic
        rw [mergedEntry_issuer] at hname
        exact absurd hname (hne e' he')
      · exact hgroup ic hic

/-- An empty group opens every store. -/
theorem inhabited_of_neverWidens (hnodup : (env.map (·.issuer)).Nodup)
    (h : NeverWidens lib env t opts) : GroupsInhabited lib env t opts := by
  intro row hrow hgroup henabled hforce hempty
  obtain ⟨⟨ic, hic, hname⟩, hdb⟩ := bindingSource_of_rowInForce hnodup hrow hforce
  have hne := (listIssuerBindings_group hrow).1
  -- every entry with the issuer of the row has what the row says: no stores, and enabled
  have hall : ∀ ic ∈ issuersInForce lib env t opts, ic.issuer = row.issuer →
      ic.stores = [] ∧ ic.disabled = false ∧ ic.storeGroup = row.storeGroup := by
    intro ic hic hname
    obtain ⟨row', hrow', -, hissuer, hstores, hrowgroup, hdisabled⟩ :=
      groupBound_row hic (hdb ic hic hname)
    obtain rfl := listIssuerBindings_inj hrow' hrow (hissuer.symm.trans hname)
    rw [hstores, hdisabled, henabled, (listIssuerBindings_group hrow).2 hgroup]
    exact ⟨hempty, rfl, hrowgroup⟩
  obtain ⟨m, hm⟩ := lookup_byIssuer_isSome hic (hname ▸ hne)
  rw [hname] at hm
  obtain ⟨hmem, hmname, -, -⟩ := storesInForce_last hm
  have hpick : pickValidator (newIssuerSet (issuersInForce lib env t opts)) row.issuer = some m := by
    have hdis : row.issuer ∉ (newIssuerSet (issuersInForce lib env t opts)).disabled := by
      intro hdis
      obtain ⟨-, ic', hic', hname', htrue⟩ := mem_disabled.mp hdis
      exact absurd ((hall ic' hic' hname').2.1.symm.trans htrue) (by decide)
    rw [pickValidator, if_neg hdis, hm]
  have hcheck : storeChecked lib (newIssuerSet (issuersInForce lib env t opts)) row.issuer "" =
      true := by
    unfold storeChecked
    cases hlookup : (newIssuerSet (issuersInForce lib env t opts)).stores.lookup row.issuer with
    | none => rfl
    | some ps =>
      obtain ⟨hps, -, ic', hic', hname', rfl⟩ := mem_of_lookup_stores hlookup
      exact absurd (hall ic' hic' hname').1 hps
  have hmgroup := (hall m hmem hmname).2.2
  have hmember := h.group m hmem (hdb m hmem hmname) (hmgroup ▸ hgroup) row.issuer "" hpick hcheck
  rw [hmgroup, hempty] at hmember
  cases hmember

/-- A single entry without a name opens every store. -/
theorem unpinned_of_neverWidens (h : NeverWidens lib env t opts) :
    UnpinnedUnrestricted lib env t opts := by
  rintro e rfl hname hnone hlist store
  obtain ⟨ms, gs, hsplit, henv, hgroups, -⟩ := issuersInForce_split lib [e] t opts
  have hgs : gs = [] := by
    refine List.eq_nil_iff_forall_not_mem.mpr fun ic hic => ?_
    obtain ⟨row, hrow, -, hadm, -⟩ := hgroups ic hic
    exact absurd (hadm.symm.trans (hnone row hrow)) (by decide)
  obtain ⟨m, a, rfl, rfl⟩ : ∃ m a, ms = [m] ∧ m = mergedEntry lib t.listIssuerBindings e a := by
    cases henv with
    | cons hem htail =>
      cases htail
      obtain ⟨a, rfl⟩ := hem
      exact ⟨_, a, rfl, rfl⟩
  rw [hgs, List.append_nil] at hsplit
  have hzip : (e, mergedEntry lib t.listIssuerBindings e a) ∈
      [e].zip (issuersInForce lib [e] t opts) := by
    rw [hsplit]
    exact List.mem_singleton.mpr rfl
  refine h.environment e _ hzip hlist "" store ?_ ?_
  · have hlookup : (newIssuerSet (issuersInForce lib [e] t opts)).byIssuer.lookup "" = none := by
      cases hlookup : (newIssuerSet (issuersInForce lib [e] t opts)).byIssuer.lookup "" with
      | none => rfl
      | some m' => exact absurd rfl (storesInForce_last hlookup).2.2.1
    have hdis : "" ∉ (newIssuerSet (issuersInForce lib [e] t opts)).disabled :=
      fun hdis => (mem_disabled.mp hdis).1 rfl
    rw [pickValidator, if_neg hdis, hlookup, newIssuerSet_validators, hsplit]
    dsimp only
    rw [if_pos ((mergedEntry_issuer e a).trans hname)]
  · unfold storeChecked
    cases hlookup : (newIssuerSet (issuersInForce lib [e] t opts)).stores.lookup "" with
    | none => rfl
    | some ps => exact absurd rfl (mem_of_lookup_stores hlookup).2.1

end Reach

/-- **Bindings never widen** if no store group with an enabled row in force is empty, and a single
entry without a name has no list or one that covers every store. For an environment with distinct
issuers, they never widen only if. -/
theorem bindings_never_widen_iff (lib : GoLib) (env : List Issuer) (t : IssuerTables)
    (opts : MergeOptions) :
    (GroupsInhabited lib env t opts ∧ UnpinnedUnrestricted lib env t opts →
      NeverWidens lib env t opts) ∧
    ((env.map (·.issuer)).Nodup → NeverWidens lib env t opts →
      GroupsInhabited lib env t opts ∧ UnpinnedUnrestricted lib env t opts) := by
  refine ⟨fun h => neverWidens_of_inhabited h.1 h.2, fun hnodup h => ?_⟩
  exact ⟨inhabited_of_neverWidens hnodup h, unpinned_of_neverWidens h⟩

/-- The library on plain names and on URLs without ports and user data. -/
def plainLib : GoLib where
  anchored p := if containsAny p regexMeta then none else some fun s => s == p
  toLower := String.toLower
  urlHost s := ((s.splitOn "/").drop 2).headD ""
  stripPort s := (s.splitOn ":").headD s
  anchored_plain p h := by simp [h]

/-- An issuer of the environment with the store `demo`. -/
def demoIssuer : Issuer where
  issuer := "https://idp.example"
  aliasName := ""
  audience := "api"
  audiences := []
  storeGroup := ""
  anchorSource := .unset
  jwksUrl := "https://idp.example/keys"
  jwksFile := ""
  stores := ["demo"]
  dbRoles := []
  clientDbRoles := []
  pepClients := []
  disabled := false
  bindingSource := .unset
  envStores := []
  admin := []

/-- A row that brings an issuer for the store group `tenant_a`. -/
def tenantRow : Binding where
  issuer := "https://idp.tenant"
  aliasName := ""
  stores := []
  dbRoles := []
  clientDbRoles := []
  pepClients := []
  enabled := true
  storeGroup := "tenant_a"
  jwksUrl := "https://idp.tenant/keys"
  audience := "api"
  audiences := []
  admin := []

/-- The group has no stores yet. -/
def emptyGroup : IssuerTables where
  stores := [⟨"demo", none⟩]
  rows := [tenantRow]
  store_plain := by decide
  issuer_ne := by decide
  issuer_nodup := by decide

/-- The tokens of the issuer of an empty group reach every store. -/
theorem empty_group_reaches_every_store :
    ¬ NeverWidens plainLib [demoIssuer] emptyGroup ⟨false, []⟩ := by
  intro h
  have hmem : tenantRow ∈ emptyGroup.listIssuerBindings := by decide +kernel
  refine inhabited_of_neverWidens (by decide) h tenantRow hmem (by decide) rfl (.inr ⟨?_, ?_⟩) ?_
  · decide
  · decide +kernel
  · decide +kernel

end PgAuthz.Daemon
