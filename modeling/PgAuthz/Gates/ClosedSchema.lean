import PgAuthz.Gates.Spec

/-!
# Closed payload schemas

`_event_check_payload` compares a payload with the schema of its action: the required paths are there,
every declared path that is there has its type, and in a closed schema every leaf is declared. Declared
paths are looked up key by key. Leaves are written as dotted texts, and compared with the declared
paths as texts: a key of the payload may hold a dot, and the `_` of a declared path stands for any
character in `LIKE`.

## Main definitions

* `checkPayload`: `_event_check_payload`
* `leafPaths`: the keys that lead to the leaves of a payload
* `InLanguage`: what a closed schema describes
* `MatchedAsText`, `Covered`: a leaf is declared by its text, and by its keys

## Main results

* `checkPayload_eq_ok_iff`: what the validation accepts
* `closed_language_iff`: when the validation accepts the payload exactly if the schema describes it
* `covered_of_matchedAsText`: keys without dots and declared objects without `_` are told apart
-/

namespace PgAuthz.Gates

/-- A payload schema as declared: its sections, and whether further fields are allowed. -/
structure DeclaredSchema extends PayloadSchema where
  additional : Bool
deriving DecidableEq

/-- `jsonb_typeof` -/
def Json.typeOf : Json → String
  | null => "null"
  | bool _ => "boolean"
  | num _ => "number"
  | str _ => "string"
  | arr _ => "array"
  | obj _ => "object"

/-- `_event_schema_paths`, required only. -/
def requiredPaths (schema : PayloadSchema) (kind : String) : List (String × String) :=
  merge schema.base.required ((schema.kinds.lookup kind).getD ⟨[], []⟩).required

/-- A required path that is not there. -/
def missingRequired (payload : Json) (d : String × String) : Option String :=
  match payload.at? (segments d.1) with
  | none => some s!"missing required {d.1} ({d.2})"
  | some v => if v.typeOf = "null" then some s!"missing required {d.1} ({d.2})" else none

/-- A declared path that is there with another type. -/
def wrongType (payload : Json) (d : String × String) : Option String :=
  match payload.at? (segments d.1) with
  | none => none
  | some v =>
    if v.typeOf ≠ "null" ∧ d.2 ≠ "any" ∧ v.typeOf ≠ d.2 then
      some (s!"{d.1} must be {d.2} (got " ++ v.typeOf ++ ")")
    else none

/-- A leaf that is not declared. -/
def undeclaredField (paths : List (String × String)) (leaf : String) : Option String :=
  if declared paths leaf then none else some s!"undeclared field {leaf} (schema is closed)"

/-- The undeclared leaves of a payload, if the schema is closed. -/
def undeclaredFields (schema : DeclaredSchema) (kind : String) (payload : Json) :
    Except String (List String) :=
  if schema.additional then .ok []
  else
    match payload with
    | .obj ms =>
      .ok ((eventPayloadLeaves "" ms).filterMap
        (undeclaredField (eventSchemaPaths schema.toPayloadSchema kind)))
    | _ => .error "cannot call jsonb_each on a non-object"

/-- `_event_check_payload` -/
def checkPayload (schema : DeclaredSchema) (kind : String) (payload : Json) : Except String Unit :=
  match undeclaredFields schema kind payload with
  | .error e => .error e
  | .ok undeclared =>
    let errs := (requiredPaths schema.toPayloadSchema kind).filterMap (missingRequired payload) ++
      (eventSchemaPaths schema.toPayloadSchema kind).filterMap (wrongType payload) ++ undeclared
    if errs = [] then .ok ()
    else .error (s!"payload does not match the action's schema (kind {kind}): " ++
      "; ".intercalate errs)

/-! ## The language of a schema -/

mutual

/-- The keys that lead to the leaves of an object: to the values that are no object, or an empty
one. -/
def leafPaths : List (String × Json) → List (List String)
  | [] => []
  | (k, v) :: ms => (pathsBelow v).map (k :: ·) ++ leafPaths ms

def pathsBelow : Json → List (List String)
  | .obj [] => [[]]
  | .obj (m :: ms) => leafPaths (m :: ms)
  | _ => [[]]

end

/-- The declared paths fit the payload: the required ones are there, and those that are there have
their types. -/
structure Fits (schema : PayloadSchema) (kind : String) (payload : Json) : Prop where
  required : ∀ d ∈ requiredPaths schema kind,
    ∃ v, payload.at? (segments d.1) = some v ∧ v.typeOf ≠ "null"
  typed : ∀ d ∈ eventSchemaPaths schema kind, ∀ v, payload.at? (segments d.1) = some v →
    v.typeOf ≠ "null" → d.2 = "any" ∨ v.typeOf = d.2

/-- The leaf lies at a declared path, or under one that is declared as an object or as anything. -/
def Covered (paths : List (String × String)) (ks : List String) : Prop :=
  ∃ d ∈ paths, segments d.1 = ks ∨
    ((∃ k rest, ks = segments d.1 ++ k :: rest) ∧ (d.2 = "object" ∨ d.2 = "any"))

/-- **The language of a closed schema**: objects that the declared paths fit, and whose leaves all lie
at or under declared paths. -/
structure InLanguage (schema : PayloadSchema) (kind : String) (payload : Json) : Prop where
  fits : Fits schema kind payload
  closed : ∃ ms, payload = .obj ms ∧ ∀ ks ∈ leafPaths ms, Covered (eventSchemaPaths schema kind) ks

/-- The text of a path. -/
def dotted : List String → List Char
  | [] => []
  | k :: ks => k.toList ++ ks.flatMap fun k => '.' :: k.toList

/-- The text of the leaf is that of a declared path, or one that `LIKE` takes to lie under it. -/
def MatchedAsText (paths : List (String × String)) (ks : List String) : Prop :=
  ∃ d ∈ paths, d.1.toList = dotted ks ∨
    (likeBelow d.1.toList (dotted ks) = true ∧ (d.2 = "object" ∨ d.2 = "any"))

/-! ## The texts of leaves -/

theorem ne_nil_of_mem_leafPaths {ms : List (String × Json)} {ks : List String}
    (h : ks ∈ leafPaths ms) : ks ≠ [] := by
  induction ms with
  | nil => cases h
  | cons m ms ih =>
    obtain ⟨k, v⟩ := m
    rw [leafPaths, List.mem_append] at h
    rcases h with h | h
    · obtain ⟨ks', -, rfl⟩ := List.mem_map.mp h
      exact List.cons_ne_nil k ks'
    · exact ih h

mutual

/-- The leaves are the texts of the key paths. -/
theorem toList_eventPayloadLeaves (pre : String) : ∀ ms : List (String × Json),
    (eventPayloadLeaves pre ms).map String.toList =
      (leafPaths ms).map fun ks => pre.toList ++ dotted ks
  | [] => rfl
  | (k, v) :: ms => by
    rw [eventPayloadLeaves, leafPaths, List.map_append, List.map_append, toList_leavesOf (pre ++ k) v,
      toList_eventPayloadLeaves pre ms, List.map_map]
    congr 1
    refine List.map_congr_left fun ks _ => ?_
    simp [dotted]

theorem toList_leavesOf (path : String) : ∀ v : Json,
    (leavesOf path v).map String.toList =
      (pathsBelow v).map fun ks => path.toList ++ ks.flatMap fun k => '.' :: k.toList
  | .obj [] => by simp [leavesOf, pathsBelow]
  | .obj (m :: ms) => by
    rw [leavesOf, pathsBelow, toList_eventPayloadLeaves (path ++ ".") (m :: ms)]
    refine List.map_congr_left fun ks hks => ?_
    obtain ⟨k, ks, rfl⟩ := List.exists_cons_of_ne_nil (ne_nil_of_mem_leafPaths hks)
    simp [dotted]
  | .null => by simp [leavesOf, pathsBelow]
  | .bool _ => by simp [leavesOf, pathsBelow]
  | .num _ => by simp [leavesOf, pathsBelow]
  | .str _ => by simp [leavesOf, pathsBelow]
  | .arr _ => by simp [leavesOf, pathsBelow]

end

/-! ## Texts and keys -/

theorem dotted_cons {k : String} {ks : List String} (h : ks ≠ []) :
    dotted (k :: ks) = k.toList ++ '.' :: dotted ks := by
  obtain ⟨k', ks, rfl⟩ := List.exists_cons_of_ne_nil h
  simp [dotted]

theorem dotted_append {ks ks' : List String} (h : ks ≠ []) (h' : ks' ≠ []) :
    dotted (ks ++ ks') = dotted ks ++ '.' :: dotted ks' := by
  induction ks with
  | nil => exact absurd rfl h
  | cons k ks ih =>
    by_cases hks : ks = []
    · subst hks
      rw [List.singleton_append, dotted_cons h']
      simp [dotted]
    · rw [List.cons_append, dotted_cons (by simp [hks]), dotted_cons hks, ih hks]
      simp

theorem segments_ne_nil (s : String) : segments s ≠ [] := by
  simp [segments, List.splitOnP_ne_nil]

theorem dotted_eq_intercalate (ks : List String) :
    dotted ks = ['.'].intercalate (ks.map String.toList) := by
  induction ks with
  | nil => rfl
  | cons k ks ih =>
    by_cases hks : ks = []
    · subst hks
      simp [dotted]
    · rw [dotted_cons hks, ih, List.map_cons, List.intercalate_cons_of_ne_nil (by simpa using hks)]
      simp

theorem map_toList_segments (s : String) : (segments s).map String.toList = s.toList.splitOn '.' := by
  have hsplit : s.toList.splitOnP (fun c => decide (c = '.')) = s.toList.splitOn '.' := by
    rw [List.splitOn_eq_splitOnP]
    rfl
  rw [segments, List.map_map, hsplit]
  exact (List.map_congr_left fun l _ => String.toList_ofList).trans (List.map_id _)

/-- A declared path is the text of its keys. -/
theorem dotted_segments (s : String) : dotted (segments s) = s.toList := by
  rw [dotted_eq_intercalate, map_toList_segments, List.intercalate_splitOn]

/-- Keys without dots can be read from their text. -/
theorem splitOn_dotted {ks : List String} (hks : ∀ k ∈ ks, '.' ∉ k.toList) (hne : ks ≠ []) :
    (dotted ks).splitOn '.' = ks.map String.toList := by
  rw [dotted_eq_intercalate]
  refine List.splitOn_intercalate '.' ?_ (by simpa using hne)
  simpa using hks

theorem likeBelow_self (p rest : List Char) : likeBelow p (p ++ '.' :: rest) = true := by
  induction p with
  | nil => rfl
  | cons c p ih => simp [likeBelow, ih]

/-- Without `_` the pattern asks for the path and a dot. -/
theorem below_of_likeBelow {p s : List Char} (hp : '_' ∉ p) (h : likeBelow p s = true) :
    ∃ rest, s = p ++ '.' :: rest := by
  induction p generalizing s with
  | nil =>
    unfold likeBelow at h
    split at h
    · exact ⟨_, rfl⟩
    · simp_all
    · cases h
  | cons c p ih =>
    obtain ⟨hc, hp⟩ := not_or.mp (mt List.mem_cons.mpr hp)
    cases s with
    | nil => simp [likeBelow] at h
    | cons d s =>
      rw [likeBelow, Bool.and_eq_true] at h
      obtain ⟨rest, rfl⟩ := ih hp h.2
      have hcd : c = d := by
        rcases Bool.or_eq_true _ _ ▸ h.1 with h | h
        · exact absurd (of_decide_eq_true h).symm hc
        · exact of_decide_eq_true h
      exact ⟨rest, by rw [hcd, List.cons_append]⟩

section Paths

variable {paths : List (String × String)} {ks : List String}

/-- A leaf that lies at or under a declared path is matched as a text. -/
theorem Covered.matchedAsText (h : Covered paths ks) : MatchedAsText paths ks := by
  obtain ⟨d, hd, heq | ⟨⟨k, rest, rfl⟩, htype⟩⟩ := h
  · exact ⟨d, hd, .inl (by rw [← heq, dotted_segments])⟩
  · refine ⟨d, hd, .inr ⟨?_, htype⟩⟩
    rw [dotted_append (segments_ne_nil d.1) (List.cons_ne_nil k rest), dotted_segments]
    exact likeBelow_self _ _

/-- **Texts tell paths apart** when the keys have no dots and declared objects no `_`. -/
theorem covered_of_matchedAsText (hks : ∀ k ∈ ks, '.' ∉ k.toList) (hne : ks ≠ [])
    (hpaths : ∀ d ∈ paths, d.2 = "object" ∨ d.2 = "any" → '_' ∉ d.1.toList)
    (h : MatchedAsText paths ks) : Covered paths ks := by
  have hinj : Function.Injective String.toList := fun a b => String.toList_injective
  have hsplit := splitOn_dotted hks hne
  obtain ⟨d, hd, htext | ⟨hlike, htype⟩⟩ := h
  · refine ⟨d, hd, .inl ?_⟩
    apply List.map_injective_iff.mpr hinj
    rw [map_toList_segments, htext, hsplit]
  · obtain ⟨rest, hrest⟩ := below_of_likeBelow (hpaths d hd htype) hlike
    rw [hrest, List.splitOn_append_cons_self] at hsplit
    obtain ⟨k, l, hl⟩ := List.exists_cons_of_ne_nil (List.splitOn_ne_nil '.' rest)
    refine ⟨d, hd, .inr ⟨⟨String.ofList k, l.map String.ofList, ?_⟩, htype⟩⟩
    apply List.map_injective_iff.mpr hinj
    rw [← hsplit, hl, List.map_append, map_toList_segments]
    simp

end Paths

/-! ## What the validation accepts -/

variable {schema : DeclaredSchema} {kind : String} {payload : Json}

theorem missingRequired_eq_none {d : String × String} : missingRequired payload d = none ↔
    ∃ v, payload.at? (segments d.1) = some v ∧ v.typeOf ≠ "null" := by
  unfold missingRequired
  cases payload.at? (segments d.1) with
  | none => simp
  | some v => simp

theorem wrongType_eq_none {d : String × String} : wrongType payload d = none ↔
    ∀ v, payload.at? (segments d.1) = some v → v.typeOf ≠ "null" → d.2 = "any" ∨ v.typeOf = d.2 := by
  unfold wrongType
  cases payload.at? (segments d.1) with
  | none => simp
  | some v =>
    simp only [ite_eq_right_iff, reduceCtorEq, imp_false, Option.some.injEq, forall_eq']
    tauto

theorem undeclaredField_eq_none {paths : List (String × String)} {leaf : String} {ks : List String}
    (hleaf : leaf.toList = dotted ks) :
    undeclaredField paths leaf = none ↔ MatchedAsText paths ks := by
  have hdeclared : declared paths leaf = true ↔ MatchedAsText paths ks := by
    rw [declared, Bool.or_eq_true, List.any_eq_true, MatchedAsText, List.lookup_isSome_iff]
    constructor
    · rintro (⟨p, hp, hkey⟩ | ⟨d, hd, hlike⟩)
      · exact ⟨p, hp, .inl (by rw [← hleaf, beq_iff_eq.mp hkey])⟩
      · rw [Bool.and_eq_true, hleaf] at hlike
        exact ⟨d, hd, .inr ⟨hlike.1, by simpa using hlike.2⟩⟩
    · rintro ⟨d, hd, htext | ⟨hlike, htype⟩⟩
      · exact .inl ⟨d, hd, beq_iff_eq.mpr (String.toList_injective (by rw [hleaf, htext]))⟩
      · refine .inr ⟨d, hd, ?_⟩
        rw [Bool.and_eq_true, hleaf]
        exact ⟨hlike, by simpa using htype⟩
  rw [← hdeclared, undeclaredField]
  split <;> simp_all

/-- **What a closed schema accepts**: the declared paths fit, and every leaf is matched as a text. -/
theorem checkPayload_eq_ok_iff (hclosed : schema.additional = false) :
    checkPayload schema kind payload = .ok () ↔
      Fits schema.toPayloadSchema kind payload ∧ ∃ ms, payload = .obj ms ∧
        ∀ ks ∈ leafPaths ms, MatchedAsText (eventSchemaPaths schema.toPayloadSchema kind) ks := by
  have hfits : Fits schema.toPayloadSchema kind payload ↔
      (requiredPaths schema.toPayloadSchema kind).filterMap (missingRequired payload) = [] ∧
        (eventSchemaPaths schema.toPayloadSchema kind).filterMap (wrongType payload) = [] := by
    simp only [List.filterMap_eq_nil_iff, missingRequired_eq_none, wrongType_eq_none]
    exact ⟨fun h => ⟨h.required, h.typed⟩, fun h => ⟨h.1, h.2⟩⟩
  unfold checkPayload undeclaredFields
  rw [hclosed, hfits]
  cases payload with
  | obj ms =>
    have hleaves : (eventPayloadLeaves "" ms).filterMap
        (undeclaredField (eventSchemaPaths schema.toPayloadSchema kind)) = [] ↔
        ∀ ks ∈ leafPaths ms, MatchedAsText (eventSchemaPaths schema.toPayloadSchema kind) ks := by
      have htexts : (eventPayloadLeaves "" ms).map String.toList = (leafPaths ms).map dotted :=
        toList_eventPayloadLeaves "" ms
      rw [List.filterMap_eq_nil_iff]
      constructor
      · intro h ks hks
        have hmem : dotted ks ∈ (eventPayloadLeaves "" ms).map String.toList := by
          rw [htexts]
          exact List.mem_map_of_mem hks
        obtain ⟨leaf, hleaf, htext⟩ := List.mem_map.mp hmem
        exact (undeclaredField_eq_none htext).mp (h leaf hleaf)
      · intro h leaf hleaf
        have hmem : leaf.toList ∈ (leafPaths ms).map dotted := by
          rw [← htexts]
          exact List.mem_map_of_mem hleaf
        obtain ⟨ks, hks, htext⟩ := List.mem_map.mp hmem
        exact (undeclaredField_eq_none htext.symm).mpr (h ks hks)
    simp only [Bool.false_eq_true, if_false, Json.obj.injEq, exists_eq_left']
    rw [← hleaves]
    simp [and_assoc]
  | _ => simp

/-- The leaf is declared by its text and not by its keys. -/
def FalselyMatched (paths : List (String × String)) (ks : List String) : Prop :=
  MatchedAsText paths ks ∧ ¬Covered paths ks

/-- **When a closed schema accepts its language.** The validation decides a payload as the schema
describes it exactly if no leaf is declared by its text only, or the payload is refused for another
reason: a declared path does not fit, or some leaf is not even declared by its text. -/
theorem closed_language_iff (hclosed : schema.additional = false) :
    (checkPayload schema kind payload = .ok () ↔ InLanguage schema.toPayloadSchema kind payload) ↔
      ((∀ ms, payload = .obj ms → ∀ ks ∈ leafPaths ms,
          ¬FalselyMatched (eventSchemaPaths schema.toPayloadSchema kind) ks) ∨
        ¬Fits schema.toPayloadSchema kind payload ∨
        ∃ ms, payload = .obj ms ∧ ∃ ks ∈ leafPaths ms,
          ¬MatchedAsText (eventSchemaPaths schema.toPayloadSchema kind) ks) := by
  rw [checkPayload_eq_ok_iff hclosed]
  constructor
  · intro hiff
    by_contra hcond
    obtain ⟨hfalse, hfits, hmatched⟩ : (∃ ms, payload = .obj ms ∧ ∃ ks ∈ leafPaths ms,
        FalselyMatched (eventSchemaPaths schema.toPayloadSchema kind) ks) ∧
        Fits schema.toPayloadSchema kind payload ∧ ∀ ms, payload = .obj ms → ∀ ks ∈ leafPaths ms,
          MatchedAsText (eventSchemaPaths schema.toPayloadSchema kind) ks := by
      push Not at hcond
      exact hcond
    -- the payload is accepted, so that the leaf is declared by its keys after all
    obtain ⟨ms, hms, ks, hks, -, hnot⟩ := hfalse
    obtain ⟨-, ms', hms', hcovered⟩ := hiff.mp ⟨hfits, ms, hms, hmatched ms hms⟩
    rw [hms] at hms'
    cases hms'
    exact hnot (hcovered ks hks)
  · intro hcond
    constructor
    · rintro ⟨hfits, ms, hms, hmatched⟩
      refine ⟨hfits, ms, hms, fun ks hks => ?_⟩
      rcases hcond with hfalse | hmisfit | ⟨ms', hms', ks', hks', hun⟩
      · by_contra hnot
        exact hfalse ms hms ks hks ⟨hmatched ks hks, hnot⟩
      · exact absurd hfits hmisfit
      · rw [hms] at hms'
        cases hms'
        exact absurd (hmatched ks' hks') hun
    · rintro ⟨hfits, ms, hms, hcovered⟩
      exact ⟨hfits, ms, hms, fun ks hks => (hcovered ks hks).matchedAsText⟩

/-- **Plain keys are decided as described**: without dots in the keys of the payload and without `_`
in the declared objects. -/
theorem closed_language_of_plain (hclosed : schema.additional = false)
    (hkeys : ∀ ms, payload = .obj ms → ∀ ks ∈ leafPaths ms, ∀ k ∈ ks, '.' ∉ k.toList)
    (hpaths : ∀ d ∈ eventSchemaPaths schema.toPayloadSchema kind,
      d.2 = "object" ∨ d.2 = "any" → '_' ∉ d.1.toList) :
    checkPayload schema kind payload = .ok () ↔ InLanguage schema.toPayloadSchema kind payload := by
  rw [checkPayload_eq_ok_iff hclosed]
  constructor
  · rintro ⟨hfits, ms, hms, hmatched⟩
    exact ⟨hfits, ms, hms, fun ks hks => covered_of_matchedAsText (hkeys ms hms ks hks)
      (ne_nil_of_mem_leafPaths hks) hpaths (hmatched ks hks)⟩
  · rintro ⟨hfits, ms, hms, hcovered⟩
    exact ⟨hfits, ms, hms, fun ks hks => (hcovered ks hks).matchedAsText⟩

/-! ## A key with a dot -/

/-- The schema `{"optional": {"output.status": "string"}, "additional": false}`. -/
def statusSchema : DeclaredSchema where
  base := ⟨[], [("output.status", "string")]⟩
  kinds := []
  additional := false

/-- The payload `{"output.status": 5}`, whose only key is no declared one. -/
def dottedPayload : Json := .obj [("output.status", .num ⟨5, 0⟩)]

/-- The payload is accepted, and the schema does not describe it. -/
theorem dottedPayload_accepted : checkPayload statusSchema "request" dottedPayload = .ok () ∧
    ¬InLanguage statusSchema.toPayloadSchema "request" dottedPayload := by
  refine ⟨by decide +kernel, fun h => ?_⟩
  obtain ⟨ms, hms, hcovered⟩ := h.closed
  cases hms
  obtain ⟨d, hd, hcase⟩ := hcovered ["output.status"] (by simp [leafPaths, pathsBelow])
  obtain rfl : d = ("output.status", "string") := by
    have hpaths : eventSchemaPaths statusSchema.toPayloadSchema "request" =
        [("output.status", "string")] := by decide +kernel
    rw [hpaths] at hd
    exact List.mem_singleton.mp hd
  have hsegments : segments "output.status" = ["output", "status"] := by decide +kernel
  rcases hcase with heq | ⟨-, htype | htype⟩
  · rw [hsegments] at heq
    exact absurd (List.cons.inj heq).1 (by decide)
  · exact absurd htype (by decide)
  · exact absurd htype (by decide)

/-- The payload `{"output": {"status": "sent"}}`. -/
def nestedPayload : Json := .obj [("output", .obj [("status", .str "sent")])]

theorem closed_language_iff_nestedPayload :
    checkPayload statusSchema "request" nestedPayload = .ok () ↔
      InLanguage statusSchema.toPayloadSchema "request" nestedPayload := by
  refine (@closed_language_iff statusSchema "request" nestedPayload rfl).mpr (.inl ?_)
  intro ms hms ks hks hfalse
  cases hms
  refine hfalse.2 ⟨("output.status", "string"), by decide +kernel, .inl ?_⟩
  obtain rfl : ks = ["output", "status"] := by simpa [leafPaths, pathsBelow] using hks
  decide +kernel

end PgAuthz.Gates
