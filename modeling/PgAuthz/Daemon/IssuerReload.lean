import PgAuthz.Daemon.StoreReach
import Mathlib.Data.List.Chain

/-!
# Issuers that are replaced while the daemon runs

The daemon swaps in a new list of issuers whenever the rows of the database change. A validator holds
the signing keys of its issuer, so the validators of the list before are kept where the anchors are
the same: the issuer, its audience and where its keys come from. A validator also holds its own copy
of the configuration, and the further audiences of a token are read from this copy. They are no part
of the comparison, so an issuer whose further audiences change keeps the ones it started with.

## Main definitions

* `JwtLib`, `verifyToken`: what the daemon takes from its token library, and the tokens it accepts
* `anchorsEqual`, `IssuerSet.replace`, `reload`: a new list of issuers over the one before
* `AudiencesKept`: entries with the same anchors accept the same audiences

## Main results

* `reload_eq_fresh_start`: after any replacements that keep the audiences of an anchor, the daemon
  accepts the tokens that it would accept if it were started with the last list
-/

namespace PgAuthz.Daemon

/-! ## Tokens -/

/-- The options that `jwt.Parse` is called with. -/
structure ParserOptions where
  validMethods : List String
  issuer : Option String
  audiences : List String
deriving DecidableEq, Repr

/-- What the daemon takes from its token library and from the issuers: the claim `iss` of a token
before it is verified, none if the token cannot be parsed; the verified claims of a token, given the
options and the keys by their identifiers; and the keys that a file or a URL serves. A token needs
one of the audiences of the options. -/
structure JwtLib (Claims Key : Type) where
  parseUnverified : String → Option String
  parse : ParserOptions → (String → Option Key) → String → Option Claims
  fileKeys : String → String → Option Key
  urlKeys : String → String → Option Key
  any_audience : ∀ opts keys auds token, (∀ a, a ∈ auds ↔ a ∈ opts.audiences) →
    parse { opts with audiences := auds } keys token = parse opts keys token

/-- `AcceptedAudiences`: the audience and the further audiences, in order. -/
def Issuer.acceptedAudiences (ic : Issuer) : List String :=
  (if ic.audience ≠ "" then [ic.audience] else []) ++ ic.audiences

/-- `getKey`, after the keys were fetched: a file goes before a URL. -/
def JwtLib.getKey {Claims Key : Type} (jwt : JwtLib Claims Key) (v : Issuer) (kid : String) :
    Option Key :=
  if v.jwksFile ≠ "" then jwt.fileKeys v.jwksFile kid else jwt.urlKeys v.jwksUrl kid

/-- The options for the tokens of a validator. -/
def Issuer.parserOptions (v : Issuer) : ParserOptions where
  validMethods := ["ES256", "ES384", "ES512", "RS256", "RS384", "RS512"]
  issuer := if v.issuer ≠ "" then some v.issuer else none
  audiences := v.acceptedAudiences

/-- `verifyToken`: the claims of an accepted token. -/
def verifyToken {Claims Key : Type} (jwt : JwtLib Claims Key) (set : IssuerSet) (token : String) :
    Option Claims :=
  (jwt.parseUnverified token).bind fun iss =>
    (pickValidator set iss).bind fun v => jwt.parse v.parserOptions (jwt.getKey v) token

/-! ## Replacing the issuers -/

/-- `anchorsEqual`. -/
def anchorsEqual (a b : Issuer) : Bool :=
  a.issuer == b.issuer && a.audience == b.audience && a.jwksUrl == b.jwksUrl &&
    a.jwksFile == b.jwksFile

/-- The validator of an entry: the first one of the list before with its anchors, or a new one. -/
def validatorFor (prev : List Issuer) (ic : Issuer) : Issuer :=
  (prev.find? fun pv => anchorsEqual pv ic).getD ic

/-- The entry of one issuer with its validator. The maps are filled from the entry. -/
def IssuerSet.addWith (prev : List Issuer) (set : IssuerSet) (ic : Issuer) : IssuerSet :=
  let v := validatorFor prev ic
  if ic.issuer = "" then { set with validators := set.validators ++ [v] }
  else
    { set.add ic with
      validators := set.validators ++ [v]
      byIssuer := (ic.issuer, v) :: set.byIssuer }

/-- `Replace`: `newIssuerSet` over the set in force. -/
def IssuerSet.replace (prev : IssuerSet) (cfgs : List Issuer) : IssuerSet :=
  cfgs.foldl (IssuerSet.addWith prev.validators) ⟨[], [], [], [], [], [], [], []⟩

/-- The set in force after `NewIssuers` and a sequence of calls of `Replace`. -/
def reload (first : List Issuer) (revisions : List (List Issuer)) : IssuerSet :=
  revisions.foldl IssuerSet.replace (newIssuerSet first)

/-- Entries of two lists with the same anchors accept the same audiences. -/
def AudiencesKept (before after : List Issuer) : Prop :=
  ∀ a ∈ before, ∀ b ∈ after, anchorsEqual a b = true →
    ∀ aud, aud ∈ a.acceptedAudiences ↔ aud ∈ b.acceptedAudiences

/-! ## Validators that verify like their entries -/

/-- A validator verifies like an entry: it has its anchors and accepts its audiences. -/
structure VerifiesLike (v ic : Issuer) : Prop where
  anchors : anchorsEqual v ic = true
  audiences : ∀ aud, aud ∈ v.acceptedAudiences ↔ aud ∈ ic.acceptedAudiences

theorem anchorsEqual_iff {a b : Issuer} :
    anchorsEqual a b = true ↔ a.issuer = b.issuer ∧ a.audience = b.audience ∧
      a.jwksUrl = b.jwksUrl ∧ a.jwksFile = b.jwksFile := by
  simp [anchorsEqual, and_assoc]

theorem anchorsEqual_refl (a : Issuer) : anchorsEqual a a = true :=
  anchorsEqual_iff.mpr ⟨rfl, rfl, rfl, rfl⟩

theorem anchorsEqual_of_left {a b c : Issuer} (hab : anchorsEqual a b = true)
    (hac : anchorsEqual a c = true) : anchorsEqual b c = true := by
  obtain ⟨h₁, h₂, h₃, h₄⟩ := anchorsEqual_iff.mp hab
  obtain ⟨k₁, k₂, k₃, k₄⟩ := anchorsEqual_iff.mp hac
  exact anchorsEqual_iff.mpr ⟨h₁ ▸ k₁, h₂ ▸ k₂, h₃ ▸ k₃, h₄ ▸ k₄⟩

theorem VerifiesLike.refl (ic : Issuer) : VerifiesLike ic ic :=
  ⟨anchorsEqual_refl ic, fun _ => Iff.rfl⟩

/-- What a validator accepts, its entry would accept as well. -/
theorem VerifiesLike.parse {Claims Key : Type} (jwt : JwtLib Claims Key) {v ic : Issuer}
    (h : VerifiesLike v ic) (token : String) :
    jwt.parse v.parserOptions (jwt.getKey v) token =
      jwt.parse ic.parserOptions (jwt.getKey ic) token := by
  obtain ⟨hissuer, -, hurl, hfile⟩ := anchorsEqual_iff.mp h.anchors
  have hkeys : jwt.getKey v = jwt.getKey ic := by
    ext1 kid
    simp only [JwtLib.getKey, hurl, hfile]
  have hopts : v.parserOptions = { ic.parserOptions with audiences := v.acceptedAudiences } := by
    simp only [Issuer.parserOptions, hissuer]
  rw [hkeys, hopts]
  exact jwt.any_audience ic.parserOptions _ v.acceptedAudiences token h.audiences

/-! ## The set after a replacement -/

/-- A set with the entries `cfgs`: every validator verifies like its entry, the validator of an issuer
is that of its last entry, and the maps are those of the entries. -/
structure InForce (set : IssuerSet) (cfgs : List Issuer) : Prop where
  validators : List.Forall₂ VerifiesLike set.validators cfgs
  byIssuer : ∀ iss, Option.Rel VerifiesLike (set.byIssuer.lookup iss)
    ((newIssuerSet cfgs).byIssuer.lookup iss)
  dbRoles : set.dbRoles = (newIssuerSet cfgs).dbRoles
  clientRole : set.clientRole = (newIssuerSet cfgs).clientRole
  stores : set.stores = (newIssuerSet cfgs).stores
  pepClients : set.pepClients = (newIssuerSet cfgs).pepClients
  disabled : set.disabled = (newIssuerSet cfgs).disabled
  admin : set.admin = (newIssuerSet cfgs).admin

theorem optionRel_refl {α : Type} {r : α → α → Prop} (hr : ∀ a, r a a) (o : Option α) :
    Option.Rel r o o := by
  cases o with
  | none => exact .none
  | some a => exact .some (hr a)

/-- A set that is built anew is in force. -/
theorem inForce_newIssuerSet (cfgs : List Issuer) : InForce (newIssuerSet cfgs) cfgs where
  validators := by
    rw [newIssuerSet_validators]
    exact List.forall₂_same.mpr fun ic _ => VerifiesLike.refl ic
  byIssuer iss := optionRel_refl VerifiesLike.refl _
  dbRoles := rfl
  clientRole := rfl
  stores := rfl
  pepClients := rfl
  disabled := rfl
  admin := rfl

/-- The validator that an entry gets verifies like the entry, if the audiences are kept. -/
theorem validatorFor_verifiesLike {set : IssuerSet} {before after : List Issuer}
    (hset : InForce set before) (hkept : AudiencesKept before after) {ic : Issuer}
    (hic : ic ∈ after) : VerifiesLike (validatorFor set.validators ic) ic := by
  unfold validatorFor
  cases hfind : set.validators.find? fun pv => anchorsEqual pv ic with
  | none => exact VerifiesLike.refl ic
  | some v =>
    have hv : anchorsEqual v ic = true := List.find?_some (p := fun pv => anchorsEqual pv ic) hfind
    -- the validator served an entry of the list before, and so did its audiences
    obtain ⟨e, he, hlike⟩ := forall₂_mem_left hset.validators (List.mem_of_find?_eq_some hfind)
    refine ⟨hv, fun aud => (hlike.audiences aud).trans ?_⟩
    exact hkept e he ic hic (anchorsEqual_of_left hlike.anchors hv) aud

/-- One more entry with a validator that verifies like it. -/
theorem InForce.addWith {set : IssuerSet} {prev cfgs : List Issuer} {ic : Issuer}
    (h : InForce set cfgs) (hlike : VerifiesLike (validatorFor prev ic) ic) :
    InForce (set.addWith prev ic) (cfgs ++ [ic]) := by
  have hvalidators : List.Forall₂ VerifiesLike (set.validators ++ [validatorFor prev ic])
      (cfgs ++ [ic]) := List.rel_append h.validators (.cons hlike .nil)
  unfold IssuerSet.addWith
  by_cases hname : ic.issuer = ""
  · rw [if_pos hname]
    -- an entry without a name is in none of the maps
    have hadd : newIssuerSet (cfgs ++ [ic]) =
        { newIssuerSet cfgs with validators := (newIssuerSet cfgs).validators ++ [ic] } := by
      rw [newIssuerSet_snoc, IssuerSet.add, if_pos hname]
    refine ⟨hvalidators, ?_, ?_, ?_, ?_, ?_, ?_, ?_⟩ <;> rw [hadd]
    · exact h.byIssuer
    · exact h.dbRoles
    · exact h.clientRole
    · exact h.stores
    · exact h.pepClients
    · exact h.disabled
    · exact h.admin
  · rw [if_neg hname]
    refine ⟨hvalidators, fun iss => ?_, ?_, ?_, ?_, ?_, ?_, ?_⟩ <;>
      simp only [newIssuerSet_snoc, IssuerSet.add, if_neg hname]
    · rw [List.lookup_cons, List.lookup_cons]
      split
      · exact .some hlike
      · exact h.byIssuer iss
    -- the other maps are filled from the entry, whichever validator it got
    · simp only [h.dbRoles]
    · simp only [h.clientRole]
    · simp only [h.stores]
    · simp only [h.pepClients]
    · simp only [h.disabled]
    · simp only [h.admin]

/-- **A replacement that keeps the audiences** leaves a set in force. -/
theorem InForce.replace {set : IssuerSet} {before after : List Issuer} (hset : InForce set before)
    (hkept : AudiencesKept before after) : InForce (set.replace after) after := by
  have key : ∀ done rest, done ++ rest = after →
      InForce (done.foldl (IssuerSet.addWith set.validators) ⟨[], [], [], [], [], [], [], []⟩) done →
      InForce (set.replace after) after := by
    intro done rest
    induction rest generalizing done with
    | nil =>
      rintro rfl h
      simpa [IssuerSet.replace] using h
    | cons ic rest ih =>
      intro hsplit h
      have hic : ic ∈ after := by
        rw [← hsplit]
        exact List.mem_append_right _ List.mem_cons_self
      refine ih (done ++ [ic]) (by rw [← hsplit, List.append_assoc]; rfl) ?_
      rw [List.foldl_append]
      exact h.addWith (validatorFor_verifiesLike hset hkept hic)
  exact key [] after rfl (inForce_newIssuerSet [])

/-- Every sequence of replacements that keep the audiences leaves a set in force. -/
theorem inForce_reload {first : List Issuer} {revisions : List (List Issuer)}
    (hkept : (first :: revisions).IsChain AudiencesKept) :
    InForce (reload first revisions) ((first :: revisions).getLast (by simp)) := by
  have key : ∀ (revisions : List (List Issuer)) (set : IssuerSet) (first : List Issuer),
      InForce set first → (first :: revisions).IsChain AudiencesKept →
      InForce (revisions.foldl IssuerSet.replace set) ((first :: revisions).getLast (by simp)) := by
    intro revisions
    induction revisions with
    | nil => exact fun set first h _ => h
    | cons next rest ih =>
      intro set first h hchain
      obtain ⟨hstep, hrest⟩ := List.isChain_cons_cons.mp hchain
      rw [List.getLast_cons (List.cons_ne_nil next rest)]
      exact ih (set.replace next) next (h.replace hstep) hrest
  exact key revisions (newIssuerSet first) first (inForce_newIssuerSet first) hkept

/-- The validator that a set in force picks verifies like the one of a fresh start. -/
theorem InForce.pickValidator {set : IssuerSet} {cfgs : List Issuer} (h : InForce set cfgs)
    (iss : String) :
    Option.Rel VerifiesLike (pickValidator set iss) (pickValidator (newIssuerSet cfgs) iss) := by
  unfold Daemon.pickValidator
  rw [h.disabled]
  by_cases hdis : iss ∈ (newIssuerSet cfgs).disabled
  · rw [if_pos hdis, if_pos hdis]
    exact .none
  rw [if_neg hdis, if_neg hdis, newIssuerSet_validators]
  have hlookup := h.byIssuer iss
  cases hleft : set.byIssuer.lookup iss with
  | some v =>
    rw [hleft] at hlookup
    cases hright : (newIssuerSet cfgs).byIssuer.lookup iss with
    | none =>
      rw [hright] at hlookup
      cases hlookup
    | some ic =>
      rw [hright] at hlookup
      exact hlookup
  | none =>
    rw [hleft] at hlookup
    cases hright : (newIssuerSet cfgs).byIssuer.lookup iss with
    | some ic =>
      rw [hright] at hlookup
      cases hlookup
    | none =>
      -- a single entry without a name
      have hvalidators := h.validators
      generalize set.validators = vs at hvalidators
      cases hvalidators with
      | nil => exact .none
      | @cons v ic vs' cfgs' hlike htail =>
        cases htail with
        | cons _ _ => exact .none
        | nil =>
          have hname := (anchorsEqual_iff.mp hlike.anchors).1
          by_cases hempty : ic.issuer = ""
          · simp only [hname, hempty, if_true]
            exact .some hlike
          · simp only [hname, hempty, if_false]
            exact .none

theorem InForce.verifyToken {Claims Key : Type} (jwt : JwtLib Claims Key) {set : IssuerSet}
    {cfgs : List Issuer} (h : InForce set cfgs) (token : String) :
    Daemon.verifyToken jwt set token = Daemon.verifyToken jwt (newIssuerSet cfgs) token := by
  unfold Daemon.verifyToken
  cases jwt.parseUnverified token with
  | none => rfl
  | some iss =>
    have hpick := h.pickValidator iss
    show (Daemon.pickValidator set iss).bind _ = (Daemon.pickValidator (newIssuerSet cfgs) iss).bind _
    generalize Daemon.pickValidator set iss = v at hpick
    generalize Daemon.pickValidator (newIssuerSet cfgs) iss = v' at hpick
    cases hpick with
    | none => rfl
    | some hlike => exact hlike.parse jwt token

/-- **Hot reload equals a fresh start** along replacements each of which keeps the audiences of the
entries with unchanged anchors: the daemon accepts the tokens that it would accept if it were started
with the last list, and the roles, stores, clients and management rules in force are those of the last
list. -/
theorem reload_eq_fresh_start {Claims Key : Type} (jwt : JwtLib Claims Key) (first : List Issuer)
    (revisions : List (List Issuer)) (hkept : (first :: revisions).IsChain AudiencesKept) :
    let last := (first :: revisions).getLast (by simp)
    (∀ token, verifyToken jwt (reload first revisions) token =
      verifyToken jwt (newIssuerSet last) token) ∧
    (reload first revisions).dbRoles = (newIssuerSet last).dbRoles ∧
    (reload first revisions).clientRole = (newIssuerSet last).clientRole ∧
    (reload first revisions).stores = (newIssuerSet last).stores ∧
    (reload first revisions).pepClients = (newIssuerSet last).pepClients ∧
    (reload first revisions).disabled = (newIssuerSet last).disabled ∧
    (reload first revisions).admin = (newIssuerSet last).admin := by
  intro last
  have h : InForce (reload first revisions) last := inForce_reload hkept
  exact ⟨h.verifyToken jwt, h.dbRoles, h.clientRole, h.stores, h.pepClients, h.disabled, h.admin⟩

/-- The claims of a token for the witnesses: its issuer and its audiences. -/
structure DemoClaims where
  iss : String
  aud : List String
deriving DecidableEq, Repr

/-- A token library that knows two tokens of `demoIssuer`, for the audiences `old` and `new`, and one
key. -/
def demoJwt : JwtLib DemoClaims Unit where
  parseUnverified token := if token ∈ ["old", "new"] then some demoIssuer.issuer else none
  parse opts keys token :=
    if token ∈ ["old", "new"] ∧ (∀ iss ∈ opts.issuer, iss = demoIssuer.issuer) ∧
        (∃ a ∈ opts.audiences, a = token) ∧ (keys "k").isSome then
      some ⟨demoIssuer.issuer, [token]⟩
    else none
  fileKeys _ _ := none
  urlKeys url kid := if url = demoIssuer.jwksUrl ∧ kid = "k" then some () else none
  any_audience opts keys auds token h := by simp [h]

/-- Stopping to accept the audience `old` leaves the rest as it was. -/
def audienceMoved : List (List Issuer) :=
  [[{ demoIssuer with audiences := ["new"] }]]

/-- A token for an audience that was taken away is accepted until the daemon is started anew. -/
theorem removed_audience_stays_in_force :
    verifyToken demoJwt (reload [{ demoIssuer with audiences := ["old"] }] audienceMoved) "old" =
        some ⟨"https://idp.example", ["old"]⟩ ∧
      verifyToken demoJwt (newIssuerSet [{ demoIssuer with audiences := ["new"] }]) "old" = none := by
  constructor <;> decide

/-- The stores of an issuer are narrowed and the issuer is disabled after that. -/
theorem reload_eq_fresh_start_demoIssuer :
    verifyToken demoJwt
      (reload [{ demoIssuer with audiences := ["new"] }]
        [[{ demoIssuer with audiences := ["new"], stores := ["docs"] }],
          [{ demoIssuer with audiences := ["new"], disabled := true }]]) "new" =
      verifyToken demoJwt
        (newIssuerSet [{ demoIssuer with audiences := ["new"], disabled := true }]) "new" :=
  (reload_eq_fresh_start demoJwt _ _ (by
    simp [AudiencesKept, Issuer.acceptedAudiences, demoIssuer])).1 "new"

end PgAuthz.Daemon
