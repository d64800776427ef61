import PgAuthz.Engine.Correct
import PgAuthz.Engine.ListSubjects
import PgAuthz.Resolution.Symmetry

/-!
# Subjects and objects without tuples

Without contextual tuples a subject that no tuple names has what every subject of its type has, and
an object without tuples gives what every object of its type gives: they hold as the wildcard does.
For an object this needs that no link is stored on the object wildcard, since the rules over links
read only those of the object itself.

## Main results

* `holds_unnamed_subject`: a subject that no tuple names is answered as the subject wildcard
* `holds_bare_object`: an object without tuples is answered as the object wildcard
* `Holds.named`, `Holds.onTuples`: who is allowed is named, and what is allowed has tuples, up to
  the wildcard
* `listed_of_holds`: a listing holds everyone who is allowed, or the wildcard
-/

namespace PgAuthz

open Resolution

variable {env env' : CheckEnv} {T : ℕ} {u o : String}

/-! ## Groups over other questions -/

/-- A group holds of two questions, whose rules hold of both or of none. -/
theorem GroupHolds.transfer {X N X' N' : Set Question} {q q' : Question} {g : ℤ}
    (hrules : groupRules env q.node g = groupRules env' q'.node g)
    (hpos : ∀ ρ ∈ groupRules env q.node g,
      (RuleHolds env X q ρ.body ↔ RuleHolds env' X' q' ρ.body))
    (hneg : ∀ ρ ∈ groupRules env q.node g,
      (RuleHolds env N q.flip ρ.body ↔ RuleHolds env' N' q'.flip ρ.body)) :
    GroupHolds env X N q g ↔ GroupHolds env' X' N' q' g := by
  unfold GroupHolds
  rw [← hrules]
  refine exists_congr fun first => and_congr_right fun _ => ?_
  cases first.groupOp with
  | or => exact exists_congr fun ρ => and_congr_right fun hρ => hpos ρ hρ
  | and => exact forall₂_congr fun ρ hρ => hpos ρ hρ
  | exclusion =>
    refine and_congr Iff.rfl (and_congr ?_ ?_)
    · exact forall₂_congr fun ρ hρ => imp_congr_right fun _ => hpos ρ hρ
    · exact forall₂_congr fun ρ hρ => imp_congr_right fun _ => not_congr (hneg ρ hρ)

/-- A group that holds has a rule that holds. -/
theorem GroupHolds.exists_rule {X N : Set Question} {q : Question} {g : ℤ}
    (h : GroupHolds env X N q g) :
    ∃ ρ ∈ orderedRules env.rules q.node.objectType q.node.relation, RuleHolds env X q ρ.body := by
  obtain ⟨first, hfirst, h⟩ := h
  have hmem : first ∈ groupRules env q.node g := List.mem_of_mem_head? hfirst
  revert h
  cases first.groupOp with
  | or =>
    rintro ⟨ρ, hρ, h⟩
    exact ⟨ρ, mem_groupRules hρ, h⟩
  | and => exact fun h => ⟨first, mem_groupRules hmem, h first hmem⟩
  | exclusion =>
    rintro ⟨⟨ρ, hρ, hbase⟩, h, -⟩
    exact ⟨ρ, mem_groupRules hρ, h ρ hρ hbase⟩

/-- **What a rule passes on from what holds holds.** -/
theorem Holds.induction (hs : Stratified env) {P : Question → Prop}
    (h : ∀ q, ∀ ρ ∈ orderedRules env.rules q.node.objectType q.node.relation,
      RuleHolds env {r | P r ∧ Holds hs r} q ρ.body → P q) {q : Question} (hq : Holds hs q) : P q := by
  have hsub := RuleSystem.leastModel_induction (stratification hs) (P := {q | P q})
    fun q ⟨g, hg⟩ => by
      obtain ⟨ρ, hρ, hbody⟩ := hg.exists_rule
      exact h q ρ hρ hbody
  exact hsub hq

/-- What holds follows from a rule over what holds. -/
theorem Holds.exists_rule {hs : Stratified env} {q : Question} (hq : Holds hs q) :
    ∃ ρ ∈ orderedRules env.rules q.node.objectType q.node.relation,
      RuleHolds env {r | Holds hs r} q ρ.body := by
  unfold Holds at hq
  rw [RuleSystem.leastModel_eq_lfp, RuleSystem.mem_masked,
    ← RuleSystem.leastModel_eq_lfp (stratification hs)] at hq
  obtain ⟨⟨g, hg⟩, -⟩ := hq
  exact hg.exists_rule

/-! ## Subjects -/

/-- A stored tuple names the subject. -/
def CheckEnv.Names (env : CheckEnv) (userType : ℕ) (userId : String) : Prop :=
  ∃ t ∈ env.tuples, t.userType = userType ∧ t.userId = userId ∧ t.userRelation = none

/-- The checks of the subjects of a store read the same rules. -/
theorem Stratified.forSubject (hs : Stratified env) (T : ℕ) (u : String) :
    Stratified (env.forSubject T u) :=
  hs

theorem ruleHolds_unnamed (hctx : env.hasCtxTuples = false) (hu : ¬ env.Names T u)
    {X : Set Question} {q : Question} {body : RuleBody} :
    RuleHolds (env.forSubject T u) X q body ↔ RuleHolds (env.forSubject T wildcard) X q body := by
  cases body with
  | direct =>
    refine or_congr (exists_congr fun t => and_congr_right fun ht => and_congr_right fun hr =>
      and_congr_right fun hT => ?_) (or_congr ?_ Iff.rfl)
    · have hleft : ∀ v, ¬ LeftOut (env.forSubject T v) t := by
        intro v h
        cases h
      have hne : t.userType = T → t.userRelation = none → t.userId ≠ u :=
        fun hut hur hid => hu ⟨t, ht, hut, hid, hur⟩
      constructor
      · rintro ⟨ho, hut, hid, hur, hpass⟩
        exact ⟨ho.imp_left fun h => ⟨h.1, hleft _⟩, hut, .inl (hid.resolve_left (hne hut hur)), hur,
          hpass⟩
      · rintro ⟨ho, hut, hid, hur, hpass⟩
        exact ⟨ho.imp_left fun h => ⟨h.1, hleft _⟩, hut, .inr (hid.elim id id), hur, hpass⟩
    · exact iff_of_false (fun h => absurd (hctx.symm.trans h.1) (by decide))
        fun h => absurd (hctx.symm.trans h.1) (by decide)
  | computed r => exact Iff.rfl
  | ttu ts c => exact Iff.rfl

/-- **A subject that no tuple names is answered as the subject wildcard.** -/
theorem holds_unnamed_subject (hs : Stratified env) (hctx : env.hasCtxTuples = false)
    (hu : ¬ env.Names T u) {q : Question} :
    Holds (hs.forSubject T u) q ↔ Holds (hs.forSubject T wildcard) q := by
  have hstep : ∀ X N, (ruleSystem (env.forSubject T u)).step X N =
      (ruleSystem (env.forSubject T wildcard)).step X N := fun X N => Set.ext fun q =>
    exists_congr fun g => GroupHolds.transfer rfl
      (fun ρ _ => ruleHolds_unnamed hctx hu) fun ρ _ => ruleHolds_unnamed hctx hu
  exact Set.ext_iff.mp (RuleSystem.leastModel_congr (stratification (hs.forSubject T u))
    (stratification (hs.forSubject T wildcard)) hstep) q

/-- Who is allowed is named, or the wildcard of its type is. -/
theorem Holds.named (hs : Stratified env) (hctx : env.hasCtxTuples = false) {q : Question}
    (hq : Holds (hs.forSubject T u) q) : env.Names T u ∨ env.Names T wildcard := by
  refine Holds.induction (hs.forSubject T u) (P := fun _ => env.Names T u ∨ env.Names T wildcard)
    (fun q ρ _ h => ?_) hq
  rcases h.grant_or_premise with ⟨t, ht, -, -, -, hut, hid, hur, -⟩ | ⟨h, -⟩ | ⟨n', -, h⟩
  · exact hid.imp (fun hid => ⟨t, ht, hut, hid, hur⟩) fun hid => ⟨t, ht, hut, hid, hur⟩
  · exact absurd (hctx.symm.trans h) (by decide)
  · exact h.1

/-! ## Objects -/

/-- A stored tuple is on the object. -/
def CheckEnv.OnTuples (env : CheckEnv) (objectType : ℕ) (objectId : String) : Prop :=
  ∃ t ∈ env.tuples, t.objectType = objectType ∧ t.objectId = objectId

/-- No rule reads a link that is stored on the object wildcard. -/
def CheckEnv.LinksNamed (env : CheckEnv) : Prop :=
  ∀ t ∈ env.tuples, t.objectId = wildcard → t.userRelation = none →
    ∀ ρ ∈ env.rules, ρ.objectType = t.objectType → ∀ c, ρ.body ≠ .ttu t.relation c

open Classical in
/-- The node that stands for a node: that of the object wildcard for an object without tuples. -/
noncomputable def CheckEnv.standIn (env : CheckEnv) (n : Node) : Node :=
  if env.OnTuples n.objectType n.objectId then n else n.onWildcard

theorem CheckEnv.standIn_key (env : CheckEnv) (n : Node) : (env.standIn n).key = n.key := by
  unfold CheckEnv.standIn
  split <;> rfl

theorem CheckEnv.standIn_relation (env : CheckEnv) (n : Node) (r : ℕ) :
    env.standIn { n with relation := r } = { env.standIn n with relation := r } := by
  unfold CheckEnv.standIn
  split <;> rfl

theorem CheckEnv.standIn_wildcard (env : CheckEnv) (r T : ℕ) :
    env.standIn ⟨r, T, wildcard⟩ = ⟨r, T, wildcard⟩ := by
  unfold CheckEnv.standIn
  split <;> rfl

theorem CheckEnv.standIn_bare (h : ¬ env.OnTuples T o) (r : ℕ) :
    env.standIn ⟨r, T, o⟩ = ⟨r, T, wildcard⟩ := if_neg h

/-- Questions with one node that stands for theirs, under one switch. -/
noncomputable def CheckEnv.alike (env : CheckEnv) : Setoid Question :=
  Setoid.ker fun q => (env.standIn q.node, q.assume)

theorem alike_iff {q q' : Question} :
    env.alike q q' ↔ env.standIn q.node = env.standIn q'.node ∧ q.assume = q'.assume := by
  rw [CheckEnv.alike, Setoid.ker_def, Prod.mk.injEq]

theorem standIn_idem (n : Node) : env.standIn (env.standIn n) = env.standIn n := by
  by_cases h : env.OnTuples n.objectType n.objectId
  · rw [show env.standIn n = n from if_pos h]
    exact if_pos h
  · rw [show env.standIn n = n.onWildcard from if_neg h]
    exact env.standIn_wildcard n.relation n.objectType

theorem alike_standIn (q : Question) : env.alike q ⟨env.standIn q.node, q.assume⟩ := by
  exact alike_iff.mpr ⟨(standIn_idem q.node).symm, rfl⟩

theorem standIn_objectType (n : Node) : (env.standIn n).objectType = n.objectType :=
  congrArg Prod.fst (env.standIn_key n)

theorem standIn_rel (n : Node) : (env.standIn n).relation = n.relation :=
  congrArg Prod.snd (env.standIn_key n)

/-- A tuple on an object or on the wildcard is one on what stands for the object or on the
wildcard. -/
theorem onObject_standIn {n : Node} {t : Tuple} (ht : t ∈ env.tuples)
    (hT : t.objectType = n.objectType) :
    (t.objectId = n.objectId ∨ t.objectId = wildcard) ↔
      (t.objectId = (env.standIn n).objectId ∨ t.objectId = wildcard) := by
  by_cases h : env.OnTuples n.objectType n.objectId
  · rw [show env.standIn n = n from if_pos h]
  · rw [show env.standIn n = n.onWildcard from if_neg h]
    constructor
    · exact fun ho => .inr (ho.resolve_left fun ho => h ⟨t, ht, hT, ho⟩)
    · exact fun ho => .inr (ho.elim id id)

theorem usersetNode_standIn {n : Node} {t : Tuple} (ht : t ∈ env.tuples) :
    usersetNode (env.standIn n) t = usersetNode n t := by
  unfold usersetNode
  rw [standIn_objectType, standIn_rel]
  refine if_congr (and_congr_right fun hT => and_congr_left fun _ => ?_) rfl rfl
  simpa using (onObject_standIn ht hT).symm

/-- A rule reads the links of what stands for the object, since none is on the wildcard. -/
theorem linkNode_standIn (hlinks : env.LinksNamed) {n : Node} {t : Tuple} (ht : t ∈ env.tuples)
    {ρ : Rule} (hρ : ρ ∈ orderedRules env.rules n.objectType n.relation) {ts c : ℕ}
    (hbody : ρ.body = .ttu ts c) : linkNode (env.standIn n) ts c t = linkNode n ts c t := by
  by_cases h : env.OnTuples n.objectType n.objectId
  · rw [show env.standIn n = n from if_pos h]
  · rw [show env.standIn n = n.onWildcard from if_neg h]
    obtain ⟨hmem, hT, -⟩ := mem_orderedRules.mp hρ
    unfold linkNode
    rw [if_neg, if_neg]
    · exact fun hrow => h ⟨t, ht, hrow.1, hrow.2.1⟩
    · rintro ⟨htype, ho, hrel, hur⟩
      exact hlinks t ht ho hur ρ hmem (hT.trans htype.symm) c (hrel.symm ▸ hbody)

theorem storedGrant_standIn (hex : env.exclude = none) {a : Bool} {n : Node} :
    StoredGrant env a (env.standIn n) ↔ StoredGrant env a n := by
  have hleft : ∀ t, ¬ LeftOut env t := by
    intro t h
    rw [LeftOut, hex] at h
    cases h
  unfold StoredGrant
  rw [standIn_objectType, standIn_rel]
  refine exists_congr fun t => and_congr_right fun ht => and_congr_right fun _ =>
    and_congr_right fun hT => and_congr_left fun _ => ?_
  simpa [hleft t] using (onObject_standIn ht hT).symm

theorem contextualGrant_false (hctx : env.hasCtxTuples = false) {n : Node} :
    ¬ ContextualGrant env n := fun h => absurd (hctx.symm.trans h.1) (by decide)

section Bare

variable (hctx : env.hasCtxTuples = false) (hex : env.exclude = none) (hlinks : env.LinksNamed)
include hctx

theorem userset_standIn {a : Bool} {n n' : Node} :
    Userset env a (env.standIn n) n' ↔ Userset env a n n' := by
  have hno : ¬ env.hasCtxTuples = true := fun h => absurd (hctx.symm.trans h) (by decide)
  refine or_congr (exists_congr fun t => and_congr_right fun ht => ?_)
    (iff_of_false (fun h => hno h.1) fun h => hno h.1)
  rw [usersetNode_standIn ht]

include hlinks

theorem linked_standIn {a : Bool} {n n' : Node} {ρ : Rule}
    (hρ : ρ ∈ orderedRules env.rules n.objectType n.relation) {ts c : ℕ}
    (hbody : ρ.body = .ttu ts c) :
    Linked env a (env.standIn n) ts c n' ↔ Linked env a n ts c n' := by
  have hno : ¬ env.hasCtxTuples = true := fun h => absurd (hctx.symm.trans h) (by decide)
  refine or_congr (exists_congr fun t => and_congr_right fun ht => ?_)
    (iff_of_false (fun h => hno h.1) fun h => hno h.1)
  rw [linkNode_standIn hlinks ht hρ hbody]

include hex

/-- A rule holds of a node as of what stands for it, over questions that stand for each other. -/
theorem ruleHolds_standIn {X : Set Question} (hX : Blind env.alike X) {q : Question} {ρ : Rule}
    (hρ : ρ ∈ orderedRules env.rules q.node.objectType q.node.relation) :
    RuleHolds env X ⟨env.standIn q.node, q.assume⟩ ρ.body ↔ RuleHolds env X q ρ.body := by
  cases hbody : ρ.body with
  | direct =>
    refine or_congr (storedGrant_standIn hex) (or_congr ?_ (exists_congr fun n' =>
      and_congr_left fun _ => userset_standIn hctx))
    exact iff_of_false (contextualGrant_false hctx) (contextualGrant_false hctx)
  | computed r =>
    have halike : env.alike ⟨{ q.node with relation := r }, q.assume⟩
        ⟨env.standIn { q.node with relation := r }, q.assume⟩ := alike_standIn _
    rw [CheckEnv.standIn_relation] at halike
    exact (hX.iff halike).symm
  | ttu ts c =>
    exact exists_congr fun n' => and_congr_left fun _ => linked_standIn hctx hlinks hρ hbody

theorem groupHolds_standIn {X N : Set Question} (hX : Blind env.alike X) (hN : Blind env.alike N)
    {q : Question} {g : ℤ} :
    GroupHolds env X N ⟨env.standIn q.node, q.assume⟩ g ↔ GroupHolds env X N q g := by
  have hrules : groupRules env (env.standIn q.node) g = groupRules env q.node g := by
    unfold groupRules
    rw [standIn_objectType, standIn_rel]
  have hmem : ∀ ρ ∈ groupRules env (env.standIn q.node) g,
      ρ ∈ orderedRules env.rules q.node.objectType q.node.relation :=
    fun ρ hρ => mem_groupRules (hrules ▸ hρ)
  exact GroupHolds.transfer hrules
    (fun ρ hρ => ruleHolds_standIn hctx hex hlinks hX (hmem ρ hρ))
    fun ρ hρ => ruleHolds_standIn hctx hex hlinks hN (q := q.flip) (hmem ρ hρ)

theorem keeps_alike : RuleSystem.Keeps env.alike (ruleSystem env) := by
  intro X N hX hN q q' hqq' hq
  obtain ⟨hnode, hassume⟩ := alike_iff.mp hqq'
  obtain ⟨g, hg⟩ := hq
  refine ⟨g, (groupHolds_standIn hctx hex hlinks hX hN).mp ?_⟩
  rw [← hnode, ← hassume]
  exact (groupHolds_standIn hctx hex hlinks hX hN).mpr hg

/-- **An object without tuples is answered as the object wildcard**, when no rule reads a link of
the wildcard. -/
theorem holds_bare_object (hs : Stratified env) (ho : ¬ env.OnTuples T o) (r : ℕ) (a : Bool) :
    Holds hs ⟨⟨r, T, o⟩, a⟩ ↔ Holds hs ⟨⟨r, T, wildcard⟩, a⟩ := by
  have hlevel : ∀ {q q' : Question}, env.alike q q' →
      (stratification hs).level q = (stratification hs).level q' := by
    intro q q' hqq'
    have hkey : q.node.key = q'.node.key := by
      rw [← env.standIn_key, (alike_iff.mp hqq').1, env.standIn_key]
    simp only [stratification, hkey]
  have hblind : Blind env.alike ((ruleSystem env).leastModel (stratification hs)) :=
    RuleSystem.blind_leastModel _ (keeps_alike hctx hex hlinks) hlevel
  refine Blind.iff hblind (alike_iff.mpr ⟨?_, rfl⟩)
  rw [CheckEnv.standIn_bare ho, CheckEnv.standIn_wildcard]

end Bare

/-- What is allowed has tuples, or the wildcard of its type has. -/
theorem Holds.onTuples {hs : Stratified env} (hctx : env.hasCtxTuples = false) {q : Question}
    (hq : Holds hs q) : env.OnTuples q.node.objectType q.node.objectId ∨
      env.OnTuples q.node.objectType wildcard := by
  refine Holds.induction hs (P := fun q => env.OnTuples q.node.objectType q.node.objectId ∨
    env.OnTuples q.node.objectType wildcard) (fun q ρ _ h => ?_) hq
  have hno : ¬ env.hasCtxTuples = true := fun h => absurd (hctx.symm.trans h) (by decide)
  cases hbody : ρ.body with
  | direct =>
    rw [hbody] at h
    rcases h with ⟨t, ht, -, hT, ho, -⟩ | h | ⟨n', ⟨t, ht, hn, -⟩ | h, -⟩
    · exact ho.imp (fun ho => ⟨t, ht, hT, ho.1⟩) fun ho => ⟨t, ht, hT, ho⟩
    · exact absurd h (contextualGrant_false hctx)
    · unfold usersetNode at hn
      split at hn
      · rename_i hrow
        have ho : t.objectId = q.node.objectId ∨ t.objectId = wildcard := by simpa using hrow.2.1
        exact ho.imp (fun ho => ⟨t, ht, hrow.1, ho⟩) fun ho => ⟨t, ht, hrow.1, ho⟩
      · cases hn
    · exact absurd h.1 hno
  | computed r =>
    rw [hbody] at h
    exact h.1
  | ttu ts c =>
    rw [hbody] at h
    obtain ⟨n', ⟨t, ht, hn, -⟩ | h, -⟩ := h
    · unfold linkNode at hn
      split at hn
      · rename_i hrow
        exact .inl ⟨t, ht, hrow.1, hrow.2.1⟩
      · cases hn
    · exact absurd h.1 hno

/-! ## Listings -/

/-- A check that returns says what holds. -/
theorem holds_of_checkAccess (hs : Stratified env) (hg : ∀ ρ ∈ env.rules, 0 ≤ ρ.groupId)
    {maxDepth : ℤ} {mode : MemoMode} {q : Question} {b : Bool}
    (h : checkAccess env maxDepth mode q = .ok b) : b = true ↔ Holds hs q :=
  have himpl := implements_ruleSystem hg
  have hsited := sited_pathKey hs
  search_iff_leastModel himpl hsited
    (decides_of_checkAccess (properCuts_of_stratified himpl hsited q) h)

/-- Who is allowed is named by a tuple of a node that the walk reaches, or the wildcard is. -/
theorem named_of_holds (hs : Stratified env) {q : Question} (hq : Holds (hs.forSubject T u) q) :
    u ∈ subjectIds env T q.node ∨ wildcard ∈ subjectIds env T q.node := by
  have hreach : ∀ root, ReachSubject env root q.node →
      u ∈ subjectIds env T root ∨ wildcard ∈ subjectIds env T root := by
    refine Holds.induction (hs.forSubject T u) (P := fun r => ∀ root, ReachSubject env root r.node →
      u ∈ subjectIds env T root ∨ wildcard ∈ subjectIds env T root) (fun r ρ hρ h root hr => ?_) hq
    rcases or_assoc.mpr h.grant_or_premise with hgrant | ⟨n', hp, hn', -⟩
    · exact (named_of_grant hgrant).imp (fun hn => mem_subjectIds.mpr ⟨r.node, hr, hn⟩)
        fun hn => mem_subjectIds.mpr ⟨r.node, hr, hn⟩
    · exact hn' root (hr.premise ⟨ρ, hρ, hp⟩)
  exact hreach q.node .refl

/-- A decision that returns has a check that returned. -/
theorem exists_checkAccess_of_decide {denv : DecideEnv} {gates : Option (List Gate)} {q : Question}
    {b : Bool} (h : decideAccess denv gates q = .ok b) :
    ∃ c, checkAccess { denv.check with exclude := none } denv.maxDepth denv.mode q = .ok c := by
  unfold decideAccess at h
  cases hc : checkAccess { denv.check with exclude := none } denv.maxDepth denv.mode q with
  | error e => simp [hc] at h
  | ok c => exact ⟨c, rfl⟩

/-- **A listing without bounds holds everyone who is allowed, or the wildcard**, when the gates are
off. -/
theorem listed_of_holds (denv : DecideEnv) (hs : Stratified denv.check)
    (hg : ∀ ρ ∈ denv.check.rules, 0 ≤ ρ.groupId) (hoff : denv.gates.gatesMode = .off)
    {q : Question} {rows : List (String × Bool)}
    (h : listSubjects denv T q none 0 none = .ok rows) (hq : Holds (hs.forSubject T u) q) :
    (u, decide (u = wildcard)) ∈ rows ∨ (wildcard, true) ∈ rows := by
  obtain ⟨ids, hpage, rfl⟩ := listSubjects_ok h
  have hgates : denv.gates.NotEnforced q.node := .inl fun h => by
    rw [hoff] at h
    cases h
  -- a named subject that is checked as `u` is listed
  have hlisted : ∀ v ∈ subjectIds denv.check T q.node,
      checkAccess (denv.check.forSubject T v) denv.maxDepth denv.mode q =
        checkAccess (denv.check.forSubject T u) denv.maxDepth denv.mode q → v ∈ ids := by
    intro v hv heq
    have hcand : v ∈ candidates (subjectIds denv.check T q.node) none :=
      mem_candidates.mpr ⟨hv, fun a ha => nomatch ha⟩
    obtain ⟨b, hb, hmem⟩ := page_full hpage hcand
    obtain ⟨c, hc⟩ := exists_checkAccess_of_decide hb
    have hcheck : checkAccess (denv.check.forSubject T v) denv.maxDepth denv.mode q = .ok c := hc
    obtain rfl : c = true := (holds_of_checkAccess (hs.forSubject T u) hg (heq ▸ hcheck)).mpr hq
    exact hmem (decideAccess_of_not_enforced (denv.forSubject T v) hgates hc hb)
  by_cases hnamed : u ∈ subjectIds denv.check T q.node
  · exact .inl (List.mem_map.mpr ⟨u, hlisted u hnamed rfl, rfl⟩)
  · have hstar := (named_of_holds hs hq).resolve_left hnamed
    have hmem := hlisted wildcard hstar (checkAccess_eq_wildcard hnamed _ _).symm
    exact .inr (List.mem_map.mpr ⟨wildcard, hmem, by simp⟩)

end PgAuthz
