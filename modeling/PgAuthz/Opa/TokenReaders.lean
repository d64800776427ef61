import PgAuthz.Daemon.AdminScope
import PgAuthz.Opa.Policy

/-!
# Two readers of one token

The policies and the daemon both derive the caller of a request from the claims of a verified token, and
are given the same names of claims. The daemon takes a claim only where it is a text that is not empty.
The policies take whatever is there: an empty text or a number as an id, every member of a roles claim,
and any value as a database role. A variable that is set to the empty text is unset for the daemon and a
path with one empty key for the policies.

## Main definitions

* `AuthnConfig`, `authn`, `dbRole`: the authentication policies
* `JWTConfig`, `deriveSubject`, `extractRoles`, `deriveDBRole`: the token middleware
* `TokenEnv`: one environment of both
* `ReadersAgree`: both derive the same caller, or none
* `ReadAlike`: the claims that both take alike

## Main results

* `readersAgree_iff`: the readers agree exactly on the claims that both take alike
-/

namespace PgAuthz.Opa

open Daemon (splitChar trimSpace)

/-! ## Claims -/

/-- The value at a path of keys. Only objects have keys. -/
def Json.find? : List String → Json → Option Json
  | [], j => some j
  | key :: path, j => (j.get? key).bind (Json.find? path)

/-- What `some r in x` ranges over: the items of an array and the values of an object. -/
def Json.members : Json → List Json
  | .arr items => items
  | .obj fields => (fields.map (·.1)).filterMap fun key => fields.lookup key
  | _ => []

/-- `trim(p, " ")`. -/
def trimBlanks (s : String) : String :=
  String.ofList ((s.toList.dropWhile (· == ' ')).reverse.dropWhile (· == ' ')).reverse

/-! ## The policies -/

/-- The settings of the authentication policies. -/
structure AuthnConfig where
  defaultSubjectType : String
  actorClaimPath : Option (List String)
  actorSubjectType : String
  rolesClaimPaths : List (List String)
  actorClaims : List String
  dbRoleClaimPath : Option (List String)

section Policies

variable (cfg : AuthnConfig) (claims : Fields)

/-- `_token_subject_id`. -/
def tokenSubjectId : Option Json :=
  if holds (claims.lookup "preferred_username") then claims.lookup "preferred_username"
  else claims.lookup "sub"

/-- `_token_subject_type`. -/
def tokenSubjectType : Option Json :=
  if holds (claims.lookup "subject_type") then claims.lookup "subject_type"
  else if cfg.defaultSubjectType ≠ "" then some (.str cfg.defaultSubjectType) else none

/-- `_delegated_actor`. -/
def delegatedActor : Option String := do
  let path ← cfg.actorClaimPath
  match (Json.find? path (.obj claims)).getD (.str "") with
  | .str v => if v = "" then none else some v
  | _ => none

/-- `roles`. -/
def roles : List Json :=
  cfg.rolesClaimPaths.flatMap fun path => ((Json.find? path (.obj claims)).getD (.arr [])).members

/-- The caller behind the claims of a token that verifies. -/
def authn : Caller :=
  let onBehalfOf := do
    let type ← tokenSubjectType cfg claims
    let id ← tokenSubjectId claims
    return Json.obj [("type", type), ("id", id)]
  match delegatedActor cfg claims with
  | some actor =>
    { subjectType := some (.str cfg.actorSubjectType)
      subjectId := some (.str actor)
      roles := roles cfg claims
      claims := .obj (cfg.actorClaims.filterMap fun name => (claims.lookup name).map (name, ·))
      onBehalfOf := onBehalfOf }
  | none =>
    { subjectType := tokenSubjectType cfg claims
      subjectId := tokenSubjectId claims
      roles := roles cfg claims
      claims := .obj (cfg.actorClaims.filterMap fun name => (claims.lookup name).map (name, ·))
      onBehalfOf := none }

/-- `db_role`. -/
def dbRole : Option Json := do
  let path ← cfg.dbRoleClaimPath
  match (Json.find? path (.obj claims)).getD (.str "") with
  | .str "" => none
  | role => some role

end Policies

/-- The subject of a caller: both its type and its id. -/
def Caller.principal (c : Caller) : Option (Json × Json) := do
  let type ← c.subjectType
  let id ← c.subjectId
  return (type, id)

/-! ## The middleware -/

/-- The claims of `JWTConfig`, and the maps of clients to database roles. -/
structure JWTConfig where
  subjectIDClaim : String
  subjectIDFallback : String
  subjectTypeClaim : String
  subjectTypeDefault : String
  actorClaim : String
  actorSubjectType : String
  rolesClaims : String
  dbRoleClaim : String
  clientRole : List (String × List (String × String))
  clientDBRoles : List (String × String)

/-- The text of a value, empty for every other one. -/
def Json.text : Option Json → String
  | some (.str s) => s
  | _ => ""

section Middleware

variable (cfg : JWTConfig) (claims : Fields)

/-- `claimString`. -/
def claimString (key : String) : String := Json.text (claims.lookup key)

/-- The loop over the segments of a path: a step that does not find an object leaves nothing. -/
def claimNode (path : String) : Option Json :=
  (splitChar path '.').foldl (fun node seg => node.bind (·.get? seg)) (some (.obj claims))

/-- `claimStringPath`. -/
def claimStringPath (path : String) : String := Json.text (claimNode claims path)

/-- `deriveSubject`: the type and id of the principal, and of whom it acts for. -/
def deriveSubject : (String × String) × (String × String) :=
  let id := claimString claims cfg.subjectIDClaim
  let id := if id = "" then claimString claims cfg.subjectIDFallback else id
  let type := claimString claims cfg.subjectTypeClaim
  let type := if type = "" then cfg.subjectTypeDefault else type
  if cfg.actorClaim = "" then ((type, id), ("", ""))
  else
    let actor := claimStringPath claims cfg.actorClaim
    if actor = "" then ((type, id), ("", "")) else ((cfg.actorSubjectType, actor), (type, id))

/-- What the middleware puts in the context: a subject without an id is none. -/
def contextSubject (subject : String × String) : Option (String × String) :=
  if subject.2 = "" then none else some subject

/-- The texts of the array at a path. -/
def rolesAt (path : String) : List String :=
  match claimNode claims path with
  | some (.arr items) => items.filterMap fun
      | .str s => some s
      | _ => none
  | _ => []

/-- `extractRoles`. -/
def extractRoles (paths : String) : List String :=
  ((((splitChar paths ',').map trimSpace).filter (· ≠ "")).flatMap (rolesAt claims)).dedup

/-- `deriveDBRole`. -/
def deriveDBRole : String :=
  let claimed := if cfg.dbRoleClaim = "" then "" else claimStringPath claims cfg.dbRoleClaim
  if claimed ≠ "" then claimed
  else
    let azp := claimString claims "azp"
    let ofIssuer := ((cfg.clientRole.lookup (claimString claims "iss")).bind (·.lookup azp)).getD ""
    if ofIssuer ≠ "" then ofIssuer else (cfg.clientDBRoles.lookup azp).getD ""

end Middleware

/-! ## One environment -/

/-- The variables of an environment in which both are given the same names of claims. The policies have
theirs for the subject built in, and the daemon always has a default type. -/
structure TokenEnv where
  defaultSubjectType : String
  actorClaim : Option String
  actorSubjectType : Option String
  rolesClaim : Option String
  dbRoleClaim : Option String
  hookActorClaims : Option String
  default_ne : defaultSubjectType ≠ ""

/-- `env`: a variable that is empty counts as unset. -/
def env (value : Option String) (fallback : String) : String :=
  if value.getD "" = "" then fallback else value.getD ""

/-- `authn_config.rego`. -/
def TokenEnv.authnConfig (e : TokenEnv) : AuthnConfig where
  defaultSubjectType := e.defaultSubjectType
  actorClaimPath := e.actorClaim.map (splitChar · '.')
  actorSubjectType := e.actorSubjectType.getD "agent"
  rolesClaimPaths :=
    match e.rolesClaim with
    | some paths => (splitChar paths ',').map fun p => splitChar (trimBlanks p) '.'
    | none => [["roles"]]
  actorClaims :=
    match e.hookActorClaims with
    | some names => ((splitChar names ',').map trimBlanks).filter (· ≠ "")
    | none => ["realm_access", "resource_access"]
  dbRoleClaimPath := e.dbRoleClaim.map (splitChar · '.')

/-- `config.Load`, without maps of clients to roles. -/
def TokenEnv.jwtConfig (e : TokenEnv) : JWTConfig where
  subjectIDClaim := "preferred_username"
  subjectIDFallback := "sub"
  subjectTypeClaim := "subject_type"
  subjectTypeDefault := e.defaultSubjectType
  actorClaim := env e.actorClaim ""
  actorSubjectType := env e.actorSubjectType "agent"
  rolesClaims := env e.rolesClaim "roles"
  dbRoleClaim := env e.dbRoleClaim ""
  clientRole := []
  clientDBRoles := []

/-- A subject of the middleware as the policies write it. -/
def subjectJson (s : String × String) : Json × Json := (.str s.1, .str s.2)

/-- Both readers derive the same caller, or none. -/
structure ReadersAgree (e : TokenEnv) (claims : Fields) : Prop where
  principal : (authn e.authnConfig claims).principal =
    (contextSubject (deriveSubject e.jwtConfig claims).1).map subjectJson
  onBehalfOf : (authn e.authnConfig claims).onBehalfOf =
    (contextSubject (deriveSubject e.jwtConfig claims).2).map fun s =>
      .obj [("type", .str s.1), ("id", .str s.2)]
  roles : ∀ v, v ∈ (authn e.authnConfig claims).roles ↔
    ∃ s ∈ extractRoles claims e.jwtConfig.rolesClaims, v = .str s
  dbRole : dbRole e.authnConfig claims =
    if deriveDBRole e.jwtConfig claims = "" then none
    else some (.str (deriveDBRole e.jwtConfig claims))

/-! ## Claims that both take alike -/

/-- The value is a text that is not empty. -/
def IsText (x : Option Json) : Prop := ∃ s, s ≠ "" ∧ x = some (.str s)

/-- The claims name the subject by texts, and what is missing is missing: the id is a text, or there is no
id at all; and where there is one, the type is a text or missing. -/
structure SubjectAlike (claims : Fields) : Prop where
  id : IsText (claims.lookup "preferred_username") ∨
    (holds (claims.lookup "preferred_username") = false ∧
      (claims.lookup "sub" = none ∨ IsText (claims.lookup "sub")))
  type : (holds (claims.lookup "preferred_username") = false ∧ claims.lookup "sub" = none) ∨
    IsText (claims.lookup "subject_type") ∨ holds (claims.lookup "subject_type") = false

/-- The token names an actor under the configured claim. -/
def Delegated (e : TokenEnv) (claims : Fields) : Prop :=
  ∃ p, p ≠ "" ∧ e.actorClaim = some p ∧ IsText (Json.find? (splitChar p '.') (.obj claims))

/-- The members of a roles claim. -/
def membersAt (claims : Fields) (path : List String) : List Json :=
  ((Json.find? path (.obj claims)).getD (.arr [])).members

/-- The text is an item of an array under one of the roles claims. -/
def Listed (e : TokenEnv) (claims : Fields) (s : String) : Prop :=
  ∃ p ∈ splitChar (env e.rolesClaim "roles") ',', trimSpace p ≠ "" ∧ s ∈ rolesAt claims (trimSpace p)

/-- The claims that both readers take alike. A variable that is set to the empty text names no claim, the
members of the roles claims are items of arrays, and the database role is a text. -/
structure ReadAlike (e : TokenEnv) (claims : Fields) : Prop where
  subject : SubjectAlike claims
  actor : e.actorClaim = some "" → ¬IsText (claims.lookup "")
  actorType : Delegated e claims → e.actorSubjectType ≠ some ""
  roles : ∀ path ∈ e.authnConfig.rolesClaimPaths, ∀ r ∈ membersAt claims path,
    ∃ s, r = .str s ∧ Listed e claims s
  listed : ∀ p ∈ splitChar (env e.rolesClaim "roles") ',', trimSpace p ≠ "" →
    splitChar (trimSpace p) '.' ∉ e.authnConfig.rolesClaimPaths → ∀ s ∈ rolesAt claims (trimSpace p),
      ∃ path ∈ e.authnConfig.rolesClaimPaths, .str s ∈ membersAt claims path
  dbRole : ∀ p, e.dbRoleClaim = some p → ∀ v, Json.find? (splitChar p '.') (.obj claims) = some v →
    ∃ s, v = .str s ∧ (p = "" → s = "")

/-! ## Paths -/

section Paths

variable {claims : Fields} {x : Option Json}

/-- The loop of the middleware finds what the policies find. -/
theorem claimNode_eq (path : String) : claimNode claims path = Json.find? (splitChar path '.') (.obj claims) := by
  have hloop : ∀ (segs : List String) (node : Option Json),
      segs.foldl (fun node seg => node.bind (·.get? seg)) node = node.bind (Json.find? segs) := by
    intro segs
    induction segs with
    | nil => simp [Json.find?]
    | cons seg segs ih =>
      intro node
      rw [List.foldl_cons, ih]
      cases node <;> rfl
  exact hloop _ _

@[simp]
theorem splitChar_empty (c : Char) : splitChar "" c = [""] := rfl

@[simp]
theorem find?_empty_key : Json.find? [""] (.obj claims) = claims.lookup "" := by
  simp [Json.find?, Json.get?]

theorem isText_iff : IsText x ↔ Json.text x ≠ "" := by
  constructor
  · rintro ⟨s, hs, rfl⟩
    exact hs
  · intro h
    match x with
    | some (.str s) => exact ⟨s, h, rfl⟩
    | none | some .null | some (.bool _) | some (.num _) | some (.arr _) | some (.obj _) => exact absurd rfl h

theorem IsText.eq_str (h : IsText x) : x = some (.str (Json.text x)) := by
  obtain ⟨s, -, rfl⟩ := h
  rfl

end Paths

/-! ## The subject -/

/-- The text of a value, where it has one. -/
def textOf (s : String) : Option Json := if s = "" then none else some (.str s)

section Subject

variable {e : TokenEnv} {claims : Fields}

/-- A value that the middleware takes as it is. -/
theorem eq_textOf_iff {x : Option Json} : x = textOf (Json.text x) ↔ x = none ∨ IsText x := by
  rw [isText_iff, textOf]
  by_cases h : Json.text x = ""
  · simp [h]
  · rw [if_neg h]
    exact iff_of_true (isText_iff.mpr h).eq_str (.inr h)

theorem text_eq_empty {x : Option Json} (h : holds x = false) : Json.text x = "" := by
  by_contra hne
  rw [(isText_iff.mpr hne).eq_str, holds_str] at h
  cases h

/-- The token's own subject, as the policies read it. -/
def tokenSubject (cfg : AuthnConfig) (claims : Fields) : Option (Json × Json) := do
  let type ← tokenSubjectType cfg claims
  let id ← tokenSubjectId claims
  return (type, id)

/-- The token's own subject, as the middleware reads it. -/
def claimSubject (cfg : JWTConfig) (claims : Fields) : String × String :=
  (if claimString claims cfg.subjectTypeClaim = "" then cfg.subjectTypeDefault
    else claimString claims cfg.subjectTypeClaim,
  if claimString claims cfg.subjectIDClaim = "" then claimString claims cfg.subjectIDFallback
    else claimString claims cfg.subjectIDClaim)

theorem tokenSubjectId_iff : tokenSubjectId claims = textOf (claimSubject e.jwtConfig claims).2 ↔
    IsText (claims.lookup "preferred_username") ∨ (holds (claims.lookup "preferred_username") = false ∧
      (claims.lookup "sub" = none ∨ IsText (claims.lookup "sub"))) := by
  show _ = textOf (if Json.text (claims.lookup "preferred_username") = "" then Json.text (claims.lookup "sub")
    else Json.text (claims.lookup "preferred_username")) ↔ _
  by_cases hname : IsText (claims.lookup "preferred_username")
  · obtain ⟨s, hs, heq⟩ := hname
    rw [tokenSubjectId, heq, holds_str]
    exact iff_of_true (by simp [textOf, hs, Json.text]) (.inl ⟨s, hs, rfl⟩)
  · have htext : Json.text (claims.lookup "preferred_username") = "" := by
      by_contra h
      exact hname (isText_iff.mpr h)
    rw [if_pos htext, tokenSubjectId]
    cases hholds : holds (claims.lookup "preferred_username") with
    | true =>
      -- the policies take the value, and it is no text
      refine iff_of_false (fun h => ?_) (by simp [hname])
      rw [if_pos rfl, textOf] at h
      split at h
      · rw [h] at hholds
        cases hholds
      · rename_i hsub
        rw [h] at htext
        exact hsub htext
    | false =>
      rw [if_neg Bool.false_ne_true, eq_textOf_iff]
      simp [hname]

theorem tokenSubjectType_eq : tokenSubjectType e.authnConfig claims =
    if holds (claims.lookup "subject_type") then claims.lookup "subject_type"
    else some (.str e.defaultSubjectType) := by
  rw [tokenSubjectType]
  show (if _ = true then _ else if e.defaultSubjectType ≠ "" then _ else _) = _
  rw [if_pos e.default_ne]
  rfl

theorem tokenSubjectType_iff :
    tokenSubjectType e.authnConfig claims = some (.str (claimSubject e.jwtConfig claims).1) ↔
      IsText (claims.lookup "subject_type") ∨ holds (claims.lookup "subject_type") = false := by
  rw [tokenSubjectType_eq]
  show _ = some (Json.str (if Json.text (claims.lookup "subject_type") = "" then e.defaultSubjectType
      else Json.text (claims.lookup "subject_type"))) ↔ _
  cases hholds : holds (claims.lookup "subject_type") with
  | false =>
    rw [if_neg Bool.false_ne_true, if_pos (text_eq_empty hholds)]
    simp
  | true =>
    rw [if_pos rfl]
    by_cases htext : IsText (claims.lookup "subject_type")
    · rw [if_neg (isText_iff.mp htext)]
      exact iff_of_true htext.eq_str (.inl htext)
    · have hempty : Json.text (claims.lookup "subject_type") = "" := by
        by_contra h
        exact htext (isText_iff.mpr h)
      refine iff_of_false (fun h => ?_) (by simp [htext])
      rw [if_pos hempty] at h
      rw [h] at hempty
      exact e.default_ne hempty

/-- The policies always have a type. -/
theorem exists_tokenSubjectType : ∃ type, tokenSubjectType e.authnConfig claims = some type := by
  rw [tokenSubjectType_eq]
  split
  · rename_i h
    cases hst : claims.lookup "subject_type" with
    | none =>
      rw [hst] at h
      cases h
    | some v => exact ⟨v, rfl⟩
  · exact ⟨_, rfl⟩

theorem tokenSubjectId_eq_none : tokenSubjectId claims = none ↔
    holds (claims.lookup "preferred_username") = false ∧ claims.lookup "sub" = none := by
  rw [tokenSubjectId]
  cases hname : claims.lookup "preferred_username" with
  | none => simp
  | some v => cases hholds : holds (some v) <;> simp

/-- **Both read the same subject of the token** exactly if its claims are texts or missing. -/
theorem tokenSubject_iff : tokenSubject e.authnConfig claims =
    (contextSubject (claimSubject e.jwtConfig claims)).map subjectJson ↔ SubjectAlike claims := by
  obtain ⟨type, htype⟩ : ∃ type, tokenSubjectType e.authnConfig claims = some type := exists_tokenSubjectType
  have htoken : tokenSubject e.authnConfig claims = (tokenSubjectId claims).map (type, ·) := by
    rw [tokenSubject, htype]
    cases tokenSubjectId claims <;> rfl
  rw [htoken, contextSubject]
  constructor
  · intro h
    by_cases hid : (claimSubject e.jwtConfig claims).2 = ""
    · rw [if_pos hid, Option.map_none, Option.map_eq_none_iff] at h
      exact ⟨tokenSubjectId_iff.mp (h.trans (if_pos hid).symm), .inl (tokenSubjectId_eq_none.mp h)⟩
    · rw [if_neg hid] at h
      obtain ⟨id, hsome, hpair⟩ := Option.map_eq_some_iff.mp h
      obtain ⟨rfl, rfl⟩ := Prod.mk.inj hpair
      exact ⟨tokenSubjectId_iff.mp (hsome.trans (if_neg hid).symm), .inr (tokenSubjectType_iff.mp htype)⟩
  · intro h
    have hid := (tokenSubjectId_iff (e := e)).mpr h.id
    rw [hid, textOf]
    by_cases hempty : (claimSubject e.jwtConfig claims).2 = ""
    · rw [if_pos hempty, if_pos hempty]
      rfl
    · rw [if_neg hempty, if_neg hempty]
      rcases h.type with hmissing | htext
      · rw [tokenSubjectId_eq_none.mpr hmissing, textOf, if_neg hempty] at hid
        cases hid
      · rw [tokenSubjectType_iff.mpr htext] at htype
        obtain rfl := Option.some.inj htype
        rfl

end Subject


/-! ## The actor -/

section Actor

variable {e : TokenEnv} {claims : Fields}

theorem delegatedActor_eq : delegatedActor e.authnConfig claims = e.actorClaim.bind fun p =>
    if Json.text (Json.find? (splitChar p '.') (.obj claims)) = "" then none
    else some (Json.text (Json.find? (splitChar p '.') (.obj claims))) := by
  show (e.actorClaim.map (splitChar · '.')).bind _ = _
  cases e.actorClaim with
  | none => rfl
  | some p =>
    show (match (Json.find? (splitChar p '.') (.obj claims)).getD (.str "") with
      | .str v => if v = "" then none else some v
      | _ => none) = ite (Json.text _ = "") none _
    cases hv : Json.find? (splitChar p '.') (.obj claims) with
    | none => rfl
    | some v => cases v <;> rfl

/-- The subject that the middleware derives, actor or not. -/
theorem deriveSubject_eq : deriveSubject e.jwtConfig claims =
    if env e.actorClaim "" = "" then (claimSubject e.jwtConfig claims, ("", ""))
    else if claimStringPath claims (env e.actorClaim "") = "" then
      (claimSubject e.jwtConfig claims, ("", ""))
    else ((env e.actorSubjectType "agent", claimStringPath claims (env e.actorClaim "")),
      claimSubject e.jwtConfig claims) := rfl

theorem principal_plain (h : delegatedActor e.authnConfig claims = none) :
    (authn e.authnConfig claims).principal = tokenSubject e.authnConfig claims ∧
      (authn e.authnConfig claims).onBehalfOf = none := by
  rw [authn, h]
  exact ⟨rfl, rfl⟩

/-- A subject as the policies report it. -/
def behalfJson (s : Json × Json) : Json := .obj [("type", s.1), ("id", s.2)]

theorem principal_delegated {actor : String} (h : delegatedActor e.authnConfig claims = some actor) :
    (authn e.authnConfig claims).principal = some (.str (e.actorSubjectType.getD "agent"), .str actor) ∧
      (authn e.authnConfig claims).onBehalfOf = (tokenSubject e.authnConfig claims).map behalfJson := by
  rw [authn, h]
  refine ⟨rfl, ?_⟩
  show Option.bind _ _ = _
  rw [tokenSubject]
  cases tokenSubjectType e.authnConfig claims with
  | none => rfl
  | some type => cases tokenSubjectId claims <;> rfl

theorem behalf_iff : (tokenSubject e.authnConfig claims).map behalfJson =
      (contextSubject (claimSubject e.jwtConfig claims)).map
        (fun s => Json.obj [("type", .str s.1), ("id", .str s.2)]) ↔ SubjectAlike claims := by
  have hinj : Function.Injective behalfJson := by
    rintro ⟨t, i⟩ ⟨t', i'⟩ h
    simpa [behalfJson] using h
  rw [← tokenSubject_iff (e := e), ← (Option.map_injective hinj).eq_iff, Option.map_map]
  rfl

/-- The type of an actor differs only where the variable is set to the empty text. -/
theorem actorType_iff : e.actorSubjectType.getD "agent" = env e.actorSubjectType "agent" ↔
    e.actorSubjectType ≠ some "" := by
  rw [env]
  cases e.actorSubjectType with
  | none => simp
  | some t =>
    by_cases ht : t = "" <;> simp [ht]

/-- Both derive the same principal, acting for the same subject. -/
def SameSubject (e : TokenEnv) (claims : Fields) : Prop :=
  (authn e.authnConfig claims).principal =
      (contextSubject (deriveSubject e.jwtConfig claims).1).map subjectJson ∧
    (authn e.authnConfig claims).onBehalfOf =
      (contextSubject (deriveSubject e.jwtConfig claims).2).map fun s =>
        .obj [("type", .str s.1), ("id", .str s.2)]

/-- Without an actor both read the subject of the token. -/
theorem sameSubject_plain (hactor : delegatedActor e.authnConfig claims = none)
    (hderive : deriveSubject e.jwtConfig claims = (claimSubject e.jwtConfig claims, ("", ""))) :
    SameSubject e claims ↔ SubjectAlike claims := by
  rw [SameSubject, (principal_plain hactor).1, (principal_plain hactor).2, hderive, tokenSubject_iff]
  exact and_iff_left rfl

/-- With an actor both report the subject of the token. -/
theorem sameSubject_delegated {actor : String} (hne : actor ≠ "")
    (hactor : delegatedActor e.authnConfig claims = some actor)
    (hderive : deriveSubject e.jwtConfig claims =
      ((env e.actorSubjectType "agent", actor), claimSubject e.jwtConfig claims)) :
    SameSubject e claims ↔ SubjectAlike claims ∧ e.actorSubjectType ≠ some "" := by
  rw [SameSubject, (principal_delegated hactor).1, (principal_delegated hactor).2, hderive, behalf_iff,
    ← actorType_iff, and_comm]
  refine and_congr_right fun _ => ?_
  show _ = (contextSubject (_, actor)).map subjectJson ↔ _
  rw [contextSubject, if_neg hne]
  simp [subjectJson]

/-- An actor that only the policies see. -/
theorem not_sameSubject {actor : String} (hactor : delegatedActor e.authnConfig claims = some actor)
    (hderive : deriveSubject e.jwtConfig claims = (claimSubject e.jwtConfig claims, ("", ""))) :
    ¬SameSubject e claims := by
  rintro ⟨hprincipal, hbehalf⟩
  rw [(principal_delegated hactor).1, hderive] at hprincipal
  rw [(principal_delegated hactor).2, hderive] at hbehalf
  -- the daemon has the actor's subject from the token, where the policies would report one too
  have htoken : tokenSubject e.authnConfig claims = none := Option.map_eq_none_iff.mp hbehalf
  obtain ⟨type, htype⟩ : ∃ type, tokenSubjectType e.authnConfig claims = some type := exists_tokenSubjectType
  have hid : tokenSubjectId claims = none := by
    rw [tokenSubject, htype] at htoken
    cases hid : tokenSubjectId claims with
    | none => rfl
    | some id =>
      rw [hid] at htoken
      cases htoken
  have halike : SubjectAlike claims := by
    obtain ⟨hname, hsub⟩ := tokenSubjectId_eq_none.mp hid
    exact ⟨.inr ⟨hname, .inl hsub⟩, .inl ⟨hname, hsub⟩⟩
  rw [← tokenSubject_iff.mpr halike, htoken] at hprincipal
  cases hprincipal

/-- **Both derive the same principal for the same subject** exactly if they read the subject of the token
alike and see the same actor. -/
theorem sameSubject_iff : SameSubject e claims ↔
    SubjectAlike claims ∧ (e.actorClaim = some "" → ¬IsText (claims.lookup "")) ∧
      (Delegated e claims → e.actorSubjectType ≠ some "") := by
  obtain hclaim | ⟨p, hclaim⟩ : e.actorClaim = none ∨ ∃ p, e.actorClaim = some p := by
    cases e.actorClaim <;> simp
  · have hnot : ¬Delegated e claims := fun ⟨p, _, hp, _⟩ => by
      rw [hclaim] at hp
      cases hp
    rw [sameSubject_plain (by rw [delegatedActor_eq, hclaim]; rfl) (by rw [deriveSubject_eq, hclaim]; rfl), hclaim]
    exact ⟨fun h => ⟨h, nofun, fun hd => absurd hd hnot⟩, And.left⟩
  by_cases hp : p = ""
  · subst hp
    have hnot : ¬Delegated e claims := fun ⟨p, hne, hp, _⟩ => by
      rw [hclaim] at hp
      exact hne (Option.some.inj hp).symm
    have hderive : deriveSubject e.jwtConfig claims = (claimSubject e.jwtConfig claims, ("", "")) := by
      rw [deriveSubject_eq, hclaim]
      rfl
    by_cases htext : Json.text (claims.lookup "") = ""
    · rw [sameSubject_plain (by rw [delegatedActor_eq, hclaim]; simp [htext]) hderive]
      exact ⟨fun h => ⟨h, fun _ ht => isText_iff.mp ht htext, fun hd => absurd hd hnot⟩, And.left⟩
    · -- the policies look under the empty key, the daemon not at all
      have hactor : delegatedActor e.authnConfig claims = some (Json.text (claims.lookup "")) := by
        rw [delegatedActor_eq, hclaim]
        simp [htext]
      exact iff_of_false (not_sameSubject hactor hderive) fun h => h.2.1 hclaim (isText_iff.mpr htext)
  · have henv : env e.actorClaim "" = p := by simp [env, hclaim, hp]
    have hpath : claimStringPath claims p = Json.text (Json.find? (splitChar p '.') (.obj claims)) := by
      rw [claimStringPath, claimNode_eq]
    have hempty : e.actorClaim = some "" → ¬IsText (claims.lookup "") := by
      rw [hclaim]
      exact fun h => absurd (Option.some.inj h) hp
    by_cases htext : Json.text (Json.find? (splitChar p '.') (.obj claims)) = ""
    · have hnot : ¬Delegated e claims := by
        rintro ⟨p', -, hp', ht⟩
        obtain rfl := Option.some.inj (hclaim.symm.trans hp')
        exact isText_iff.mp ht htext
      have hderive : deriveSubject e.jwtConfig claims = (claimSubject e.jwtConfig claims, ("", "")) := by
        rw [deriveSubject_eq, henv, if_neg hp, hpath, if_pos htext]
      rw [sameSubject_plain (by rw [delegatedActor_eq, hclaim]; simp [htext]) hderive]
      exact ⟨fun h => ⟨h, hempty, fun hd => absurd hd hnot⟩, And.left⟩
    · have hactor : delegatedActor e.authnConfig claims =
          some (Json.text (Json.find? (splitChar p '.') (.obj claims))) := by
        rw [delegatedActor_eq, hclaim]
        simp [htext]
      have hderive : deriveSubject e.jwtConfig claims = ((env e.actorSubjectType "agent",
          Json.text (Json.find? (splitChar p '.') (.obj claims))), claimSubject e.jwtConfig claims) := by
        rw [deriveSubject_eq, henv, if_neg hp, hpath, if_neg htext]
      rw [sameSubject_delegated htext hactor hderive]
      exact ⟨fun h => ⟨h.1, hempty, fun _ => h.2⟩,
        fun h => ⟨h.1, h.2.2 ⟨p, hp, hclaim, isText_iff.mpr htext⟩⟩⟩

end Actor

/-! ## Roles -/

section Roles

variable {e : TokenEnv} {claims : Fields}

theorem mem_roles {v : Json} : v ∈ (authn e.authnConfig claims).roles ↔
    ∃ path ∈ e.authnConfig.rolesClaimPaths, v ∈ membersAt claims path := by
  have hroles : (authn e.authnConfig claims).roles = roles e.authnConfig claims := by
    rw [authn]
    cases delegatedActor e.authnConfig claims <;> rfl
  rw [hroles, roles, List.mem_flatMap]
  rfl

theorem mem_extractRoles {s : String} :
    s ∈ extractRoles claims e.jwtConfig.rolesClaims ↔ Listed e claims s := by
  rw [extractRoles, List.mem_dedup, List.mem_flatMap]
  constructor
  · rintro ⟨path, hpath, hs⟩
    obtain ⟨hmap, hne⟩ := List.mem_filter.mp hpath
    obtain ⟨p, hp, rfl⟩ := List.mem_map.mp hmap
    exact ⟨p, hp, of_decide_eq_true hne, hs⟩
  · rintro ⟨p, hp, hne, hs⟩
    exact ⟨trimSpace p, List.mem_filter.mpr ⟨List.mem_map_of_mem hp, decide_eq_true hne⟩, hs⟩

/-- A text of the array at a path is a member there. -/
theorem mem_membersAt_of_rolesAt {path s : String} (h : s ∈ rolesAt claims path) :
    .str s ∈ membersAt claims (splitChar path '.') := by
  rw [rolesAt, claimNode_eq] at h
  rw [membersAt]
  split at h
  · rename_i items hitems
    rw [hitems]
    obtain ⟨v, hv, hs⟩ := List.mem_filterMap.mp h
    cases v with
    | str t =>
      obtain rfl := Option.some.inj hs
      exact hv
    | _ => cases hs
  · cases h

/-- **Both find the same roles** exactly if the members are listed texts, and listed under paths of both. -/
theorem roles_iff : (∀ v, v ∈ (authn e.authnConfig claims).roles ↔
      ∃ s ∈ extractRoles claims e.jwtConfig.rolesClaims, v = .str s) ↔
    (∀ path ∈ e.authnConfig.rolesClaimPaths, ∀ r ∈ membersAt claims path,
      ∃ s, r = .str s ∧ Listed e claims s) ∧
    ∀ p ∈ splitChar (env e.rolesClaim "roles") ',', trimSpace p ≠ "" →
      splitChar (trimSpace p) '.' ∉ e.authnConfig.rolesClaimPaths → ∀ s ∈ rolesAt claims (trimSpace p),
        ∃ path ∈ e.authnConfig.rolesClaimPaths, .str s ∈ membersAt claims path := by
  simp only [mem_roles, mem_extractRoles]
  constructor
  · intro h
    refine ⟨fun path hpath r hr => ?_, fun p hp hne _ s hs => (h (.str s)).mpr ⟨s, ⟨p, hp, hne, hs⟩, rfl⟩⟩
    obtain ⟨s, hs, rfl⟩ := (h r).mp ⟨path, hpath, hr⟩
    exact ⟨s, rfl, hs⟩
  · rintro ⟨hmembers, hlisted⟩ v
    constructor
    · rintro ⟨path, hpath, hv⟩
      obtain ⟨s, rfl, hs⟩ := hmembers path hpath v hv
      exact ⟨s, hs, rfl⟩
    · rintro ⟨s, ⟨p, hp, hne, hs⟩, rfl⟩
      by_cases hpath : splitChar (trimSpace p) '.' ∈ e.authnConfig.rolesClaimPaths
      · exact ⟨_, hpath, mem_membersAt_of_rolesAt hs⟩
      · exact hlisted p hp hne hpath s hs

end Roles

/-! ## The database role -/

section DBRole

variable {e : TokenEnv} {claims : Fields}

theorem deriveDBRole_eq : deriveDBRole e.jwtConfig claims =
    if env e.dbRoleClaim "" = "" then "" else claimStringPath claims (env e.dbRoleClaim "") := by
  have hmaps : ∀ role : String, (if role ≠ "" then role else if ("" : String) ≠ "" then "" else "") = role := by
    intro role
    by_cases hrole : role = "" <;> simp [hrole]
  exact hmaps _

/-- The role of a text. -/
theorem role_str (s : String) : (match Json.str s with
    | .str "" => none
    | role => some role) = textOf s := by
  by_cases hs : s = ""
  · subst hs
    rfl
  · rw [textOf, if_neg hs]
    split
    · rename_i h
      exact absurd (Json.str.inj h) hs
    · rfl

/-- **Both find the same database role** exactly if the claim is a text or missing. -/
theorem dbRole_iff : dbRole e.authnConfig claims = textOf (deriveDBRole e.jwtConfig claims) ↔
    ∀ p, e.dbRoleClaim = some p → ∀ v, Json.find? (splitChar p '.') (.obj claims) = some v →
      ∃ s, v = .str s ∧ (p = "" → s = "") := by
  rw [deriveDBRole_eq]
  show (e.dbRoleClaim.map (splitChar · '.')).bind _ = _ ↔ _
  cases hclaim : e.dbRoleClaim with
  | none => exact iff_of_true rfl nofun
  | some p =>
    show (match (Json.find? (splitChar p '.') (.obj claims)).getD (.str "") with
      | .str "" => none
      | role => some role) = _ ↔ _
    have hforall : (∀ q, some p = some q → ∀ v, Json.find? (splitChar q '.') (.obj claims) = some v →
        ∃ s, v = .str s ∧ (q = "" → s = "")) ↔
        ∀ v, Json.find? (splitChar p '.') (.obj claims) = some v → ∃ s, v = .str s ∧ (p = "" → s = "") := by
      simp
    rw [hforall]
    have hclaimed : (if env (some p) "" = "" then "" else claimStringPath claims (env (some p) "")) =
        if p = "" then "" else Json.text (Json.find? (splitChar p '.') (.obj claims)) := by
      by_cases hp : p = "" <;> simp [env, hp, claimStringPath, claimNode_eq]
    rw [hclaimed]
    cases hv : Json.find? (splitChar p '.') (.obj claims) with
    | none =>
      refine iff_of_true ?_ nofun
      by_cases hp : p = "" <;> simp [hp, textOf, Json.text]
    | some v =>
      cases v with
      | str s =>
        rw [Option.getD_some, role_str]
        by_cases hp : p = ""
        · simp [hp, textOf]
        · simp [hp, Json.text]
      | _ =>
        -- the policies take a value that is no text
        refine iff_of_false ?_ (by simp)
        by_cases hp : p = "" <;> simp [hp, textOf, Json.text]

end DBRole

/-! ## Agreement -/

/-- **The readers agree exactly on the claims that both take alike.** -/
theorem readersAgree_iff (e : TokenEnv) (claims : Fields) : ReadersAgree e claims ↔ ReadAlike e claims := by
  constructor
  · intro h
    obtain ⟨hsubject, hactor, htype⟩ := sameSubject_iff.mp ⟨h.principal, h.onBehalfOf⟩
    obtain ⟨hroles, hlisted⟩ := roles_iff.mp h.roles
    exact ⟨hsubject, hactor, htype, hroles, hlisted, dbRole_iff.mp h.dbRole⟩
  · intro h
    obtain ⟨hprincipal, hbehalf⟩ := sameSubject_iff.mpr ⟨h.subject, h.actor, h.actorType⟩
    exact ⟨hprincipal, hbehalf, roles_iff.mpr ⟨h.roles, h.listed⟩, dbRole_iff.mpr h.dbRole⟩

/-- An environment that leaves the claims at their names. -/
def plainTokens : TokenEnv := ⟨"internal_user", none, none, none, none, none, by decide⟩

/-- **A token with an empty name** is its subject for the daemon, and for the policies nobody's. -/
theorem empty_name_read_apart : ¬ReadersAgree plainTokens
    [("sub", .str "alice"), ("preferred_username", .str ""), ("subject_type", .str "user")] := by
  rintro ⟨hprincipal, -, -, -⟩
  have hpair : some (Json.str "user", Json.str "") = some (Json.str "user", Json.str "alice") := hprincipal
  simp at hpair

end PgAuthz.Opa
