import PgAuthz.Console.TwoDoors
import PgAuthz.Text.JsonText
import Mathlib.Data.List.Sort

/-!
# The teams of a person

The directory memberships of a person come from the ID token. Every value under a configured claim becomes a
team: the value loses its outer slashes, each run of characters that no id may hold becomes an underscore, and
the prefix of the claim is put in front of it with an underscore.

So the teams of a person are those of the memberships in the token, but a team may stand for more than one
membership: for two values that are folded to the same text, and for two claims one of whose prefixes goes on
behind the other with an underscore. There are no other cases.

## Main definitions

* `claimPath`, `Claim.ofDocument`: the claim under a dotted path of a token
* `carried`: the memberships that a token carries
* `principal`: the person of a session

## Main results

* `team_eq_iff`: the memberships that share a team
* `teams_of_token`: the contextual tuples of a person, and what each of them stands for
-/

namespace PgAuthz.Console

open JsonText

/-! ## Claims -/

/-- The payload of a token: a map, as the list of its entries. -/
abbrev Claims := List (List Char × Document)

/-- A key of a map; a missing one reads as null. -/
def Claims.get (m : Claims) (key : List Char) : Document := (m.lookup key).getD .null

/-- A step into a map; anything else has no keys. -/
def descend (cur : Document) (seg : List Char) : Document :=
  match cur with
  | .obj fields => Claims.get fields seg
  | _ => .null

/-- `claimPath`: walks a dotted path into the payload. -/
def claimPath (m : Claims) (path : List Char) : Document := (path.splitOn '.').foldl descend (.obj m)

/-- The text of a string. -/
def text? : Document → Option (List Char)
  | .str s => some s
  | _ => none

/-- What the reader of a claim sees of a value. -/
def Claim.ofDocument : Document → Claim
  | .str s => .text (String.ofList s)
  | .arr items => .list ((items.filterMap text?).map String.ofList)
  | .obj fields => .object (fields.map fun f => String.ofList f.1)
  | _ => .absent

/-! ## Team ids -/

/-- A value as it stands in a team id. -/
def idPart (value : String) : List Char := replaceUnsafe false (trimSlashes value.toList)

theorem toList_teamID (kind value : String) : (teamID kind value).toList = kind.toList ++ '_' :: idPart value := by
  simp [teamID, idPart]

/-- `TeamClaim`. -/
structure TeamClaim where
  pfx : String
  path : List Char
deriving DecidableEq, Repr

/-- What the sign-in reads of the configuration. -/
structure SignInConfig where
  subjectType : Typ
  localAdminTeams : List String
  localAdminStoreRole : Option Rel
  teamClaims : List TeamClaim

/-- A session: the local admin's, or that of an ID token and an access token. -/
structure Session where
  username : String
  isLocal : Bool
  idToken : Claims
  accessToken : Claims

/-- `scopeLacksTesting`. -/
def scopeLacksTesting (scope : String) : Bool :=
  (Daemon.fields scope).any (Daemon.startsWith · "pgauthz:") && !(Daemon.fields scope).contains "pgauthz:test"

/-- A directory membership: the prefix of the claim, and a value under its path. -/
structure TeamMembership where
  pfx : String
  value : String
deriving DecidableEq, Repr

/-- The team that a membership is turned into. -/
def TeamMembership.team (m : TeamMembership) : String := teamID m.pfx m.value

/-- The memberships that a token carries. -/
def carried (claims : List TeamClaim) (token : Claims) : List TeamMembership :=
  claims.flatMap fun tc => (claimValues (.ofDocument (claimPath token tc.path))).map fun v => ⟨tc.pfx, v⟩

/-- `principal`: the person of a session. The keys of a map come in any order, and the teams are sorted after
that. -/
def principal (cfg : SignInConfig) (session : Option Session) (pathStore : String) : Option Principal :=
  match session with
  | none => none
  | some se =>
    if se.username = "" then none
    else if se.isLocal then
      some ⟨cfg.subjectType, se.username, cfg.localAdminTeams.insertionSort (· ≤ ·), cfg.localAdminStoreRole,
        pathStore, false⟩
    else
      some ⟨cfg.subjectType, se.username,
        ((carried cfg.teamClaims se.idToken).map TeamMembership.team).dedup.insertionSort (· ≤ ·), none, "",
        (text? (se.accessToken.get "scope".toList)).any fun sc => scopeLacksTesting (String.ofList sc)⟩

/-! ## Shared teams -/

variable {p p' a b : List Char} {x : Char}

/-- Where two texts that are joined by one character agree, both parts do, or one first part goes on behind
the other. -/
theorem append_cons_eq_iff : p ++ x :: a = p' ++ x :: b ↔
    (p = p' ∧ a = b) ∨ (∃ r, p' = p ++ x :: r ∧ a = r ++ x :: b) ∨ ∃ r, p = p' ++ x :: r ∧ b = r ++ x :: a := by
  constructor
  · intro h
    rcases List.append_eq_append_iff.mp h with ⟨r, rfl, hr⟩ | ⟨r, rfl, hr⟩
    · cases r with
      | nil =>
        rw [List.nil_append, List.cons.injEq] at hr
        exact .inl ⟨(List.append_nil p).symm, hr.2⟩
      | cons y r =>
        rw [List.cons_append, List.cons.injEq] at hr
        obtain ⟨rfl, rfl⟩ := hr
        exact .inr (.inl ⟨r, rfl, rfl⟩)
    · cases r with
      | nil =>
        rw [List.nil_append, List.cons.injEq] at hr
        exact .inl ⟨List.append_nil p', hr.2.symm⟩
      | cons y r =>
        rw [List.cons_append, List.cons.injEq] at hr
        obtain ⟨rfl, rfl⟩ := hr
        exact .inr (.inr ⟨r, rfl, rfl⟩)
  · rintro (⟨rfl, rfl⟩ | ⟨r, rfl, rfl⟩ | ⟨r, rfl, rfl⟩)
    · rfl
    · rw [List.append_assoc, List.cons_append]
    · rw [List.append_assoc, List.cons_append]

/-- The prefix of `m'` goes on behind that of `m`, and the value of `m` makes up for what follows there. -/
def TeamMembership.Absorbs (m m' : TeamMembership) : Prop :=
  ∃ r, m'.pfx.toList = m.pfx.toList ++ '_' :: r ∧ idPart m.value = r ++ '_' :: idPart m'.value

/-- **The memberships that share a team.** -/
theorem team_eq_iff {m m' : TeamMembership} : m.team = m'.team ↔
    (m.pfx = m'.pfx ∧ idPart m.value = idPart m'.value) ∨ m.Absorbs m' ∨ m'.Absorbs m := by
  unfold TeamMembership.team
  rw [← String.toList_inj, toList_teamID, toList_teamID, append_cons_eq_iff, String.toList_inj]
  rfl

/-- A text of id characters is left as it is. -/
theorem replaceUnsafe_of_isSafeId {v : List Char} (h : ∀ c ∈ v, isSafeId c = true) (inRun : Bool) :
    replaceUnsafe inRun v = v := by
  induction v generalizing inRun with
  | nil => rfl
  | cons c cs ih =>
    rw [replaceUnsafe, if_pos (h c List.mem_cons_self), ih fun c' hc' => h c' (List.mem_cons_of_mem c hc')]

/-- Only characters that an id may hold are left of a value. -/
theorem isSafeId_of_mem_replaceUnsafe {v : List Char} {inRun : Bool} {c : Char} (h : c ∈ replaceUnsafe inRun v) :
    isSafeId c = true := by
  induction v generalizing inRun with
  | nil => cases h
  | cons d v ih =>
    rw [replaceUnsafe] at h
    split at h
    · rcases List.mem_cons.mp h with rfl | h
      · assumption
      · exact ih h
    · split at h
      · exact ih h
      · rcases List.mem_cons.mp h with rfl | h
        · decide
        · exact ih h

/-- Folding a folded text changes nothing. -/
theorem replaceUnsafe_replaceUnsafe (v : List Char) (b inRun : Bool) :
    replaceUnsafe b (replaceUnsafe inRun v) = replaceUnsafe inRun v :=
  replaceUnsafe_of_isSafeId (fun _ => isSafeId_of_mem_replaceUnsafe) b

/-- A value that keeps all its characters but the outer slashes. -/
def TeamMembership.Plain (m : TeamMembership) : Prop := ∀ c ∈ trimSlashes m.value.toList, isSafeId c = true

/-- Neither of two prefixes goes on behind the other with an underscore. -/
def Apart (p p' : List Char) : Prop := ¬ (p ++ ['_']) <+: p' ∧ ¬ (p' ++ ['_']) <+: p

theorem apart_self (p : List Char) : Apart p p := by
  have h : ¬ (p ++ ['_']) <+: p := by
    intro h
    have hle := h.length_le
    rw [List.length_append, List.length_singleton] at hle
    omega
  exact ⟨h, h⟩

theorem not_absorbs_of_apart {m m' : TeamMembership} (h : Apart m.pfx.toList m'.pfx.toList) :
    ¬ m.Absorbs m' ∧ ¬ m'.Absorbs m := by
  constructor
  · rintro ⟨r, hr, -⟩
    exact h.1 ⟨r, by rw [hr, List.append_assoc, List.singleton_append]⟩
  · rintro ⟨r, hr, -⟩
    exact h.2 ⟨r, by rw [hr, List.append_assoc, List.singleton_append]⟩

/-- **Plain values under prefixes that are apart are not confused.** -/
theorem eq_of_team_eq {m m' : TeamMembership} (hm : m.Plain) (hm' : m'.Plain)
    (hapart : Apart m.pfx.toList m'.pfx.toList) (h : m.team = m'.team) :
    m.pfx = m'.pfx ∧ trimSlashes m.value.toList = trimSlashes m'.value.toList := by
  obtain ⟨hleft, hright⟩ := not_absorbs_of_apart hapart
  rcases team_eq_iff.mp h with ⟨hpfx, hid⟩ | habs | habs
  · unfold idPart at hid
    rw [replaceUnsafe_of_isSafeId hm, replaceUnsafe_of_isSafeId hm'] at hid
    exact ⟨hpfx, hid⟩
  · exact absurd habs hleft
  · exact absurd habs hright

/-! ## The teams of a token -/

variable {cfg : SignInConfig} {se : Session} {pathStore : String} {person : Principal}

/-- The memberships that a token carries. -/
theorem mem_carried {claims : List TeamClaim} {token : Claims} {m : TeamMembership} :
    m ∈ carried claims token ↔
      ∃ tc ∈ claims, m.pfx = tc.pfx ∧ m.value ∈ claimValues (.ofDocument (claimPath token tc.path)) := by
  unfold carried
  rw [List.mem_flatMap]
  constructor
  · rintro ⟨tc, htc, hm⟩
    obtain ⟨v, hv, rfl⟩ := List.mem_map.mp hm
    exact ⟨tc, htc, rfl, hv⟩
  · rintro ⟨tc, htc, hpfx, hv⟩
    exact ⟨tc, htc, List.mem_map.mpr ⟨m.value, hv, by rw [← hpfx]⟩⟩

/-- The teams of a person who signed in with a token. -/
theorem teams_of_principal (hp : principal cfg (some se) pathStore = some person) (hlocal : se.isLocal = false) :
    person.teams = ((carried cfg.teamClaims se.idToken).map TeamMembership.team).dedup.insertionSort (· ≤ ·) := by
  unfold principal at hp
  dsimp only at hp
  rw [hlocal] at hp
  split at hp
  · cases hp
  · obtain rfl := Option.some.inj hp
    rfl

theorem mem_teams (hp : principal cfg (some se) pathStore = some person) (hlocal : se.isLocal = false)
    {t : String} : t ∈ person.teams ↔ ∃ m ∈ carried cfg.teamClaims se.idToken, m.team = t := by
  rw [teams_of_principal hp hlocal, List.mem_insertionSort, List.mem_dedup, List.mem_map]

/--
**The contextual tuples of a person name the teams of the memberships in the token and no others.** Two
memberships share a team exactly if their prefixes agree and their values are folded to the same text, or
the prefix of one goes on behind that of the other and its value makes up for that. Plain values under one
prefix, or under prefixes that are apart, share a team only if they are the same up to slashes.
-/
theorem teams_of_token (hp : principal cfg (some se) pathStore = some person) (hlocal : se.isLocal = false) :
    (∀ tuple, tuple ∈ person.memberships ↔
      ∃ m ∈ carried cfg.teamClaims se.idToken, tuple = ⟨person.user, .member, ⟨.team, m.team⟩⟩) ∧
    (∀ m m' : TeamMembership, m.team = m'.team ↔
      (m.pfx = m'.pfx ∧ idPart m.value = idPart m'.value) ∨ m.Absorbs m' ∨ m'.Absorbs m) ∧
    ∀ m m' : TeamMembership, m.Plain → m'.Plain → m.pfx = m'.pfx ∨ Apart m.pfx.toList m'.pfx.toList → m.team = m'.team →
      m.pfx = m'.pfx ∧ trimSlashes m.value.toList = trimSlashes m'.value.toList := by
  refine ⟨fun tuple => ?_, fun m m' => team_eq_iff, fun m m' hm hm' hpfx h => ?_⟩
  · unfold Principal.memberships
    rw [List.mem_map]
    simp only [mem_teams hp hlocal]
    constructor
    · rintro ⟨_, ⟨m, hm, rfl⟩, rfl⟩
      exact ⟨m, hm, rfl⟩
    · rintro ⟨m, hm, rfl⟩
      exact ⟨m.team, ⟨m, hm, rfl⟩, rfl⟩
  · refine eq_of_team_eq hm hm' ?_ h
    rcases hpfx with heq | hapart
    · rw [heq]
      exact apart_self _
    · exact hapart

/-- The default claims for roles and groups. -/
def demoSignIn : SignInConfig :=
  ⟨.user, [], none, [⟨"role", "realm_access.roles".toList⟩, ⟨"group", "groups".toList⟩]⟩

/-- A session whose token carries one group. -/
def inGroup (group : String) : Session :=
  ⟨"alice", false, [("groups".toList, .arr [.str group.toList])], []⟩

theorem teams_of_token_inGroup :
    ⟨⟨.user, "alice", none⟩, .member, ⟨.team, "group_eng_platform"⟩⟩ ∈
      (⟨.user, "alice", ["group_eng_platform"], none, "", false⟩ : Principal).memberships :=
  ((@teams_of_token demoSignIn (inGroup "/eng/platform") ""
    ⟨.user, "alice", ["group_eng_platform"], none, "", false⟩ (by decide +kernel) rfl).1 _).mpr
    ⟨⟨"group", "/eng/platform"⟩, by decide +kernel, by decide +kernel⟩

/-- Two groups with the same team, and a role and a group of another claim with the same team. -/
theorem memberships_share_team :
    (principal demoSignIn (some (inGroup "/Sales Team")) "").map Principal.teams = some ["group_Sales_Team"] ∧
    (principal demoSignIn (some (inGroup "/Sales_Team")) "").map Principal.teams = some ["group_Sales_Team"] ∧
    trimSlashes "/Sales Team".toList ≠ trimSlashes "/Sales_Team".toList ∧
    (⟨"role", "ops_admin"⟩ : TeamMembership).team = TeamMembership.team ⟨"role_ops", "admin"⟩ := by
  decide +kernel

end PgAuthz.Console
