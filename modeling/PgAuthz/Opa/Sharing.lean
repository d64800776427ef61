import PgAuthz.Opa.NativeCallback
import PgAuthz.Opa.TokenReaders

/-!
# Sharing through the policies

A grant or a revocation through the policies acts as the principal of the verified token. The policies
assert the id of the principal to the callback listener, and nothing of its type; the listener, which has
no token, takes the id without the white space around it and gives it the default type of its instance.
The public listener takes type and id from the token.

## Main definitions

* `forwardShare`: the sharing operations of `data.authz.write`, up to the body they send
* `resolveSharingActor`, `grantOrRevoke`: the handler of both listeners
* `shareThroughPolicies`, `shareOnPublic`: a sharing call over either way

## Main results

* `public_acts_as_subject`: on the public listener the token's principal acts
* `shares_as_principal_iff`: through the policies the principal acts iff it is of the default type and
  its id has no white space around it
-/

namespace PgAuthz.Opa

open Daemon (trimSpace)

/-! ## The policies -/

/-- The sharing operations. -/
inductive SharingOp
  | grant
  | revoke
deriving DecidableEq, Repr

/-- The call of an operation. -/
def SharingOp.call : SharingOp → NativeCall
  | grant => .grant
  | revoke => .revoke

/-- The input document of a sharing operation, besides the token. -/
structure SharingInput where
  store : Option String := none
  operation : SharingOp
  tuple : Json
  context : Json := .null
  consistency : Option Json := none

/-- What a write is evaluated in: the settings, whether a write target is configured, the verdict of the
mounted hooks, and the callbacks. -/
structure WritePolicies where
  authn : AuthnConfig
  enabled : Bool
  defaultStore : Option String
  hooksPass : Caller → SharingInput → Bool
  native : NativeConfig

/-- `_valid_tuple`. -/
def validTuple (t : Json) : Bool :=
  ["user_type", "user_id", "relation", "object_type", "object_id"].all fun key => holds (t.get? key)

/-- The entries of a body that are not null. -/
def nonNull (fields : Fields) : Fields :=
  fields.filter fun
    | (_, .null) => false
    | _ => true

/-- `_grant_body`. -/
def grantFields (tuple context actor : Json) : Option Fields := do
  let userType ← tuple.get? "user_type"
  let userId ← tuple.get? "user_id"
  let relation ← tuple.get? "relation"
  let objectType ← tuple.get? "object_type"
  let objectId ← tuple.get? "object_id"
  return [("user", .obj [("type", userType), ("id", userId)]), ("relation", relation),
      ("object", .obj [("type", objectType), ("id", objectId)]), ("actor", actor)] ++
    nonNull (["user_relation", "condition", "condition_context", "expires_at"].map fun key =>
      (key, (tuple.get? key).getD .null)) ++ nonNull [("context", context)]

/-- The role of `X-PGAuthz-Role`. A header is a text, and any other value sends nothing. -/
def roleHeader (cfg : AuthnConfig) (claims : Fields) : Option String :=
  match given (dbRole cfg claims) with
  | none => some ""
  | some (.str role) => some role
  | some _ => none

/-- A request to the callback listener. -/
structure ShareCall where
  store : String
  operation : SharingOp
  role : String
  body : Fields

/-- The sharing operations of `data.authz.write` for a verified token: enabled, well-formed, and not vetoed
by a hook. The actor is `authn.subject_id`. -/
def forwardShare (p : WritePolicies) (claims : Fields) (i : SharingInput) : Option ShareCall := do
  let caller := Opa.authn p.authn claims
  if p.enabled && validTuple i.tuple && p.hooksPass caller i then
    let store ← i.store <|> p.defaultStore
    let actor ← caller.subjectId
    let role ← roleHeader p.authn claims
    let body ← grantFields i.tuple i.context actor
    return ⟨store, i.operation, role, body ++ ((given i.consistency).map fun c => ("consistency", c)).toList⟩
  else none

/-! ## The listeners -/

/-- `grantBody`. -/
structure GrantBody where
  userType : String
  userId : String
  userRelation : String
  relation : String
  objectType : String
  objectId : String
  condition : String
  conditionContext : Option Json
  expiresAt : String
  context : Option Json
  consistency : String
  actor : String

/-- A text field of a body: empty where it is missing or null, and an error for any other value. -/
def decodeText : Option Json → Option String
  | none | some .null => some ""
  | some (.str s) => some s
  | some _ => none

/-- A subject or resource of a body. -/
def decodeRef : Option Json → Option (String × String)
  | none | some .null => some ("", "")
  | some (.obj fields) => do return (← decodeText (fields.lookup "type"), ← decodeText (fields.lookup "id"))
  | some _ => none

/-- The body of a sharing call. -/
def decodeGrantBody (body : Fields) : Option GrantBody := do
  let user ← decodeRef (body.lookup "user")
  let userRelation ← decodeText (body.lookup "user_relation")
  let relation ← decodeText (body.lookup "relation")
  let object ← decodeRef (body.lookup "object")
  let condition ← decodeText (body.lookup "condition")
  let expiresAt ← decodeText (body.lookup "expires_at")
  let consistency ← decodeText (body.lookup "consistency")
  let actor ← decodeText (body.lookup "actor")
  return ⟨user.1, user.2, userRelation, relation, object.1, object.2, condition,
    body.lookup "condition_context", expiresAt, body.lookup "context", consistency, actor⟩

/-- A listener: whether its instance writes, its default type, the stores it admits, and whether it is the
callback of a trusted upstream or may take an asserted subject. -/
structure Listener where
  writable : Bool
  subjectTypeDefault : String
  storeAllowed : String → Bool
  callback : Bool
  mayAssertSubject : Bool

/-- `resolveActor`, beside the id of the token's subject, empty without a token. -/
def resolveActor (l : Listener) (jwtSubject bodyValue : String) : Option String :=
  let bodyValue := trimSpace bodyValue
  if 256 < bodyValue.utf8ByteSize then none
  else if bodyValue = "" then (if jwtSubject = "" then none else some jwtSubject)
  else if l.callback then some bodyValue
  else if bodyValue = jwtSubject || l.mayAssertSubject then some bodyValue
  else none

/-- `resolveSharingActor`: type and id. -/
def resolveSharingActor (l : Listener) (subject : String × String) (bodyActor : String) :
    Option (String × String) :=
  (resolveActor l subject.2 bodyActor).map fun id =>
    (if id ≠ subject.2 ∨ subject.1 = "" then l.subjectTypeDefault else subject.1, id)

/-- `GrantRequest`, which the engine authorises and records for its actor. -/
structure GrantRequest where
  store : String
  revoke : Bool
  actorType : String
  actorId : String
  body : GrantBody

/-- `grantOrRevoke`, up to the call of the engine. -/
def grantOrRevoke (l : Listener) (subject : String × String) (store : String) (revoke : Bool)
    (body : Fields) : Option GrantRequest := do
  let req ← decodeGrantBody body
  if l.writable && req.userType ≠ "" && req.userId ≠ "" && req.relation ≠ "" && req.objectType ≠ "" &&
      req.objectId ≠ "" && l.storeAllowed store then
    let actor ← resolveSharingActor l subject req.actor
    return ⟨store, revoke, actor.1, actor.2, req⟩
  else none

/-- A sharing operation through the policies, as far as a sharing endpoint serves the callback. The
callback has no token. -/
def shareThroughPolicies (p : WritePolicies) (l : Listener) (stores : StoreNames) (claims : Fields)
    (i : SharingInput) : Option GrantRequest := do
  let call ← forwardShare p claims i
  let (store, ep) ← nativeCallback p.native stores call.operation.call call.store
  if ep = "grant" then grantOrRevoke { l with callback := true } ("", "") store false call.body
  else if ep = "revoke" then grantOrRevoke { l with callback := true } ("", "") store true call.body
  else none

/-- A sharing operation on the public listener. -/
def shareOnPublic (cfg : JWTConfig) (l : Listener) (claims : Fields) (store : String) (revoke : Bool)
    (body : Fields) : Option GrantRequest :=
  grantOrRevoke { l with callback := false } (deriveSubject cfg claims).1 store revoke body

/-! ## The actor -/

section Actor

variable {l : Listener} {subject : String × String} {store : String} {revoke : Bool} {body : Fields}
  {req : GrantRequest}

/-- A request that is served has decoded, and its actor is the one that the listener resolves. -/
theorem actor_of_grantOrRevoke (h : grantOrRevoke l subject store revoke body = some req) :
    decodeGrantBody body = some req.body ∧
      resolveSharingActor l subject req.body.actor = some (req.actorType, req.actorId) := by
  obtain ⟨decoded, hdecode, h⟩ := Option.bind_eq_some_iff.mp h
  split at h
  · obtain ⟨actor, hactor, h⟩ := Option.bind_eq_some_iff.mp h
    obtain rfl := Option.some.inj h
    exact ⟨hdecode, hactor⟩
  · cases h

/-- The actor of a body is a text, or missing. -/
theorem decodeText_actor {b : GrantBody} (h : decodeGrantBody body = some b) :
    decodeText (body.lookup "actor") = some b.actor := by
  simp only [decodeGrantBody, Option.bind_eq_bind, Option.bind_eq_some_iff, Option.pure_def,
    Option.some.injEq] at h
  obtain ⟨-, -, -, -, -, -, -, -, -, -, -, -, -, -, actor, hactor, rfl⟩ := h
  exact hactor

/-- **On the public listener the token's subject acts**: a request that names no actor is made for the
type and the id that the middleware read from the token. -/
theorem public_acts_as_subject {cfg : JWTConfig} {claims : Fields}
    (h : shareOnPublic cfg l claims store revoke body = some req)
    (hactor : decodeText (body.lookup "actor") = some "") (htype : (deriveSubject cfg claims).1.1 ≠ "") :
    (req.actorType, req.actorId) = (deriveSubject cfg claims).1 := by
  obtain ⟨hdecode, hresolve⟩ := actor_of_grantOrRevoke h
  have hempty : req.body.actor = "" := by
    rw [decodeText_actor hdecode] at hactor
    exact Option.some.inj hactor
  rw [hempty] at hresolve
  obtain ⟨id, hid, hpair⟩ := Option.map_eq_some_iff.mp hresolve
  -- nothing is asserted, so that only the subject of the token is left
  have hsubject : id = (deriveSubject cfg claims).1.2 := by
    have hid : (if (deriveSubject cfg claims).1.2 = "" then none
        else some (deriveSubject cfg claims).1.2) = some id := hid
    split at hid
    · cases hid
    · exact (Option.some.inj hid).symm
  rw [← hpair, if_neg (by simp [hsubject, htype]), hsubject]

/-- A callback has no token, and its actor is the asserted id without white space, under the default type. -/
theorem actor_of_callback (hcallback : l.callback = true) {bodyActor : String} {actor : String × String}
    (h : resolveSharingActor l ("", "") bodyActor = some actor) :
    actor = (l.subjectTypeDefault, trimSpace bodyActor) ∧ trimSpace bodyActor ≠ "" := by
  obtain ⟨id, hid, rfl⟩ := Option.map_eq_some_iff.mp h
  rw [if_pos (.inr rfl)]
  unfold resolveActor at hid
  simp only [hcallback, if_true] at hid
  split at hid
  · cases hid
  · split at hid
    · cases hid
    · rename_i hne
      obtain rfl := Option.some.inj hid
      exact ⟨rfl, hne⟩

end Actor

section Policies

variable {p : WritePolicies} {l : Listener} {stores : StoreNames} {claims : Fields} {input : SharingInput}

/-- The body of a call names the subject's id, whatever else it holds. -/
theorem actor_of_forwardShare {call : ShareCall} (h : forwardShare p claims input = some call) :
    ∃ actor, (authn p.authn claims).subjectId = some actor ∧ call.body.lookup "actor" = some actor := by
  unfold forwardShare at h
  simp only [Option.bind_eq_bind, Option.pure_def] at h
  split at h
  · obtain ⟨store, -, h⟩ := Option.bind_eq_some_iff.mp h
    obtain ⟨actor, hactor, h⟩ := Option.bind_eq_some_iff.mp h
    obtain ⟨role, -, h⟩ := Option.bind_eq_some_iff.mp h
    obtain ⟨body, hbody, h⟩ := Option.bind_eq_some_iff.mp h
    obtain rfl := Option.some.inj h
    refine ⟨actor, hactor, ?_⟩
    simp only [grantFields, Option.bind_eq_bind, Option.bind_eq_some_iff, Option.pure_def,
      Option.some.injEq] at hbody
    obtain ⟨userType, -, userId, -, relation, -, objectType, -, objectId, -, rfl⟩ := hbody
    rfl
  · cases h

/-- What acts through the policies is the subject's id under the default type. -/
theorem actor_of_share {req : GrantRequest} (h : shareThroughPolicies p l stores claims input = some req) :
    ∃ id, (authn p.authn claims).subjectId = some (.str id) ∧
      req.actorType = l.subjectTypeDefault ∧ req.actorId = trimSpace id := by
  obtain ⟨call, hcall, h⟩ := Option.bind_eq_some_iff.mp h
  obtain ⟨⟨store, ep⟩, -, h⟩ := Option.bind_eq_some_iff.mp h
  have hserved : ∃ revoke,
      grantOrRevoke { l with callback := true } ("", "") store revoke call.body = some req := by
    dsimp only at h
    split at h
    · exact ⟨false, h⟩
    · split at h
      · exact ⟨true, h⟩
      · cases h
  obtain ⟨revoke, hserved⟩ := hserved
  obtain ⟨hdecode, hresolve⟩ := actor_of_grantOrRevoke hserved
  obtain ⟨hpair, hne⟩ := actor_of_callback rfl hresolve
  obtain ⟨actor, hid, hlookup⟩ := actor_of_forwardShare hcall
  have htext := decodeText_actor hdecode
  rw [hlookup] at htext
  -- a null actor is decoded as the empty text, and nobody acts under it
  match actor, htext with
  | .str id, htext =>
    have heq : id = req.body.actor := Option.some.inj htext
    rw [← heq] at hpair
    exact ⟨id, hid, congrArg Prod.fst hpair, congrArg Prod.snd hpair⟩
  | .null, htext =>
    have heq : "" = req.body.actor := Option.some.inj htext
    rw [← heq] at hne
    exact absurd rfl hne

/-- **Sharing through the policies acts as the principal of the token iff** the principal is of the
default type of the instance and its id has no white space around it. -/
theorem shares_as_principal_iff {t i : Json} {req : GrantRequest}
    (hprincipal : (authn p.authn claims).principal = some (t, i))
    (hshare : shareThroughPolicies p l stores claims input = some req) :
    (Json.str req.actorType, Json.str req.actorId) = (t, i) ↔
      t = .str l.subjectTypeDefault ∧ ∃ id, i = .str id ∧ trimSpace id = id := by
  obtain ⟨id, hid, htype, hactor⟩ := actor_of_share hshare
  obtain ⟨type, -, hprincipal⟩ := Option.bind_eq_some_iff.mp hprincipal
  obtain ⟨id', hid', hprincipal⟩ := Option.bind_eq_some_iff.mp hprincipal
  obtain ⟨rfl, rfl⟩ := Prod.mk.inj (Option.some.inj hprincipal)
  obtain rfl : Json.str id = id' := Option.some.inj (hid.symm.trans hid')
  rw [htype, hactor, Prod.mk.injEq]
  constructor
  · rintro ⟨rfl, htrim⟩
    exact ⟨rfl, id, rfl, Json.str.inj htrim⟩
  · rintro ⟨rfl, id', hstr, htrim⟩
    obtain rfl := Json.str.inj hstr
    exact ⟨rfl, congrArg Json.str htrim⟩

end Policies

/-- The policies of a deployment without hooks, whose only callback is the writer. -/
def sharingPolicies : WritePolicies where
  authn := plainTokens.authnConfig
  enabled := true
  defaultStore := some "demo"
  hooksPass _ _ := true
  native := ⟨composeCallback, composeCallback⟩

/-- A writer whose subjects are internal users by default. -/
def sharingListener : Listener := ⟨true, "internal_user", fun _ => true, true, false⟩

/-- The token of alice under a type. -/
def aliceToken (type : String) : Fields := [("sub", .str "alice"), ("subject_type", .str type)]

/-- Alice shares the plan with bob. -/
def sharePlan : SharingInput where
  operation := .grant
  tuple := .obj [("user_type", .str "internal_user"), ("user_id", .str "bob"), ("relation", .str "viewer"),
    ("object_type", .str "document"), ("object_id", .str "plan")]

/-- What the engine receives for it, from whatever token of alice. -/
def sharedPlan : GrantRequest where
  store := "demo"
  revoke := false
  actorType := "internal_user"
  actorId := "alice"
  body := ⟨"internal_user", "bob", "", "viewer", "document", "plan", "", none, "", none, "", "alice"⟩

theorem share_alice (type : String) :
    shareThroughPolicies sharingPolicies sharingListener demoStores (aliceToken type) sharePlan =
      some sharedPlan := by
  have hcall : forwardShare sharingPolicies (aliceToken type) sharePlan = some ⟨"demo", .grant, "",
      [("user", .obj [("type", .str "internal_user"), ("id", .str "bob")]), ("relation", .str "viewer"),
        ("object", .obj [("type", .str "document"), ("id", .str "plan")]), ("actor", .str "alice")]⟩ := rfl
  have hserved : nativeCallback sharingPolicies.native demoStores (SharingOp.call .grant) "demo" =
      some ("demo", "grant") := by decide +kernel
  rw [shareThroughPolicies, hcall]
  simp only [Option.bind_eq_bind, Option.bind_some, hserved, if_true]
  rfl

theorem internal_user_shares_as_principal :
    (Json.str sharedPlan.actorType, Json.str sharedPlan.actorId) =
      (.str "internal_user", .str "alice") :=
  (shares_as_principal_iff rfl (share_alice _)).mpr
    ⟨rfl, "alice", rfl, by decide +kernel⟩

/-- **Two principals act as one**: alice the user and alice the agent share as the same internal user,
who is neither of them. -/
theorem agent_shares_as_internal_user :
    (authn sharingPolicies.authn (aliceToken "user")).principal = some (.str "user", .str "alice") ∧
      (authn sharingPolicies.authn (aliceToken "agent")).principal = some (.str "agent", .str "alice") ∧
      shareThroughPolicies sharingPolicies sharingListener demoStores (aliceToken "user") sharePlan =
        some sharedPlan ∧
      shareThroughPolicies sharingPolicies sharingListener demoStores (aliceToken "agent") sharePlan =
        some sharedPlan ∧
      sharedPlan.actorType = "internal_user" ∧ sharedPlan.actorId = "alice" :=
  ⟨rfl, rfl, share_alice _, share_alice _, rfl, rfl⟩

end PgAuthz.Opa
