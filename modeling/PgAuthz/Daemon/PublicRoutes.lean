import PgAuthz.Text.ServeMux
import Mathlib.Data.List.Infix

/-!
# Routes without a token

The JWT middleware lets a request through without a token if its decoded path is public: it is one of a few
paths, it starts with one of two directories, or it starts as the path of a store and ends as a discovery
document. The multiplexer behind it works on the path as it was sent. An escaped slash is then no separator
for the multiplexer, but it is one for the test of the middleware, so the path of a protected route may be
written so that the test sees more segments than the multiplexer.

The test still fails for it: a segment in the place of a wildcard does not change how the path starts, nor how
it ends, and with that every protected route differs from what is public.

## Main definitions

* `isPublicPath`: the paths that need no token
* `Handler`, `newPublicMux`, `newAdminMux`: the routes of the two listeners
* `Target`: the target of a request, as it was sent and decoded

## Main results

* `public_of_isPublicPath`: a public path is dispatched to a public handler, if to any
-/

namespace PgAuthz.Daemon

open ServeMux Url

/-! ## Public paths -/

/-- `swaggerUIPath`. -/
def swaggerUIPath : String := "/pgauthz/v1/docs"

/-- `isHealthPath`: the probes, and the deprecated alias. -/
def isHealthPath (path : Bytes) : Bool :=
  path = utf8 "/healthz" || path = utf8 "/livez" || path = utf8 "/readyz"

/-- `isPublicPath`: the probes, discovery, the OpenAPI document and the Swagger UI. -/
def isPublicPath (path : Bytes) : Bool :=
  isHealthPath path ||
    (utf8 "/.well-known/").isPrefixOf path ||
    path = utf8 "/pgauthz/v1/openapi.json" || path = utf8 "/pgauthz/v1/openapi.yaml" ||
    path = utf8 swaggerUIPath || (utf8 (swaggerUIPath ++ "/")).isPrefixOf path ||
    ((utf8 "/stores/").isPrefixOf path && (utf8 "/.well-known/authzen-configuration").isSuffixOf path)

/-! ## Routes -/

/-- The handlers. -/
inductive Handler
  | healthz | livez | readyz
  | wellKnown
  | openAPIJSON | openAPIYAML
  | swaggerUI | swaggerUIAsset
  | evaluation | evaluations | searchSubject | searchResource | searchAction
  | issuers | explain | watch | nativeRelationUsage | grantOptions
  | nativeCheck | nativeCheckBatch | nativeListObjects | nativeListSubjects | nativeListActions
  | writeTuples | deleteTuples | deleteUserTuples | writeTuplesChecked | grant | revoke | applyGrants
  | recordEvents | reserveEvent
  | adminIssuers | adminIssuerBindings | adminIssuerBindingsAudit | adminSetIssuerBinding
  | adminDeleteIssuerBinding
  | adminRecorders | adminSetRecorder | adminDeleteRecorder
  | adminNamespaces | adminSetNamespaceAccess | adminDeleteNamespaceAccess
  | adminStores | adminStore | adminUpsertStore | adminDeleteStore | adminPurgeStoreDecisions
  | adminStoreDeletions | adminStoreModel | adminApplyModel
  | adminGroups | adminUpsertGroup | adminDeleteGroup | adminSetStoreGroup
  | adminModelConsumers | adminGrantModelConsumer | adminRevokeModelConsumer
  | adminModels | adminTestModel | adminPublishModel | adminModelRollout
  | adminSubjectObjects | adminSubjectExport
deriving DecidableEq

/-- The health, discovery, OpenAPI and Swagger handlers. -/
def Handler.isPublic : Handler → Bool
  | healthz | livez | readyz | wellKnown | openAPIJSON | openAPIYAML | swaggerUI | swaggerUIAsset => true
  | _ => false

/-- An opening brace. -/
def brace : UInt8 := 0x7B

/-- The segments of a pattern: a name in braces is a wildcard. -/
def parsePattern (path : Bytes) : List Seg :=
  ((path.splitOn slash).drop 1).map fun s => if s.head? = some brace then .wild else .lit s

/-- `mux.HandleFunc`. -/
def handle (method path : String) (handler : Handler) : Route Handler := ⟨method, parsePattern (utf8 path), handler⟩

/-- A route, and its variant for a store. -/
def handleBoth (method path : String) (handler : Handler) : List (Route Handler) :=
  [handle method path handler, handle method ("/stores/{store}" ++ path) handler]

/-- `registerAuthZEN`. -/
def registerAuthZEN : List (Route Handler) :=
  handleBoth "POST" "/access/v1/evaluation" .evaluation
    ++ handleBoth "POST" "/access/v1/evaluations" .evaluations
    ++ handleBoth "POST" "/access/v1/search/subject" .searchSubject
    ++ handleBoth "POST" "/access/v1/search/resource" .searchResource
    ++ handleBoth "POST" "/access/v1/search/action" .searchAction
    ++ handleBoth "GET" "/.well-known/authzen-configuration" .wellKnown
    ++ [handle "GET" "/.well-known/authzen-configuration/stores/{store}" .wellKnown]

/-- `registerNativeRead`. -/
def registerNativeRead : List (Route Handler) :=
  [handle "GET" "/pgauthz/v1/issuers" .issuers]
    ++ handleBoth "POST" "/pgauthz/v1/relation-usage" .nativeRelationUsage
    ++ handleBoth "POST" "/pgauthz/v1/explain" .explain
    ++ handleBoth "POST" "/pgauthz/v1/watch" .watch
    ++ handleBoth "POST" "/pgauthz/v1/grant-options" .grantOptions
    ++ handleBoth "POST" "/pgauthz/v1/check" .nativeCheck
    ++ handleBoth "POST" "/pgauthz/v1/check-batch" .nativeCheckBatch
    ++ handleBoth "POST" "/pgauthz/v1/list-objects" .nativeListObjects
    ++ handleBoth "POST" "/pgauthz/v1/list-subjects" .nativeListSubjects
    ++ handleBoth "POST" "/pgauthz/v1/list-actions" .nativeListActions

/-- `registerNativeWrite`. -/
def registerNativeWrite : List (Route Handler) :=
  handleBoth "POST" "/pgauthz/v1/write" .writeTuples
    ++ handleBoth "POST" "/pgauthz/v1/delete" .deleteTuples
    ++ handleBoth "POST" "/pgauthz/v1/delete-user" .deleteUserTuples
    ++ handleBoth "POST" "/pgauthz/v1/write-checked" .writeTuplesChecked
    ++ handleBoth "POST" "/pgauthz/v1/grant" .grant
    ++ handleBoth "POST" "/pgauthz/v1/revoke" .revoke
    ++ handleBoth "POST" "/pgauthz/v1/apply-grants" .applyGrants
    ++ handleBoth "POST" "/pgauthz/v1/events" .recordEvents
    ++ handleBoth "POST" "/pgauthz/v1/events/reserve" .reserveEvent

/-- `registerAdminSubjects`. -/
def registerAdminSubjects : List (Route Handler) :=
  [handle "GET" "/pgauthz/v1/admin/stores/{store}/subjects/{type}/{id}/objects" .adminSubjectObjects,
    handle "GET" "/pgauthz/v1/admin/stores/{store}/subjects/{type}/{id}" .adminSubjectExport]

/-- `registerAdminStores`. -/
def registerAdminStores : List (Route Handler) :=
  registerAdminSubjects ++
  [handle "GET" "/pgauthz/v1/admin/stores/{store}/recorders" .adminRecorders,
    handle "PUT" "/pgauthz/v1/admin/stores/{store}/recorders/{role}" .adminSetRecorder,
    handle "DELETE" "/pgauthz/v1/admin/stores/{store}/recorders/{role}" .adminDeleteRecorder,
    handle "GET" "/pgauthz/v1/admin/stores/{store}/namespaces" .adminNamespaces,
    handle "PUT" "/pgauthz/v1/admin/stores/{store}/namespaces/{ns}/access/{role}" .adminSetNamespaceAccess,
    handle "DELETE" "/pgauthz/v1/admin/stores/{store}/namespaces/{ns}/access/{role}"
      .adminDeleteNamespaceAccess,
    handle "GET" "/pgauthz/v1/admin/stores" .adminStores,
    handle "GET" "/pgauthz/v1/admin/stores/{store}" .adminStore,
    handle "PUT" "/pgauthz/v1/admin/stores/{store}" .adminUpsertStore,
    handle "DELETE" "/pgauthz/v1/admin/stores/{store}" .adminDeleteStore,
    handle "DELETE" "/pgauthz/v1/admin/stores/{store}/decisions" .adminPurgeStoreDecisions,
    handle "GET" "/pgauthz/v1/admin/stores/{store}/deletions" .adminStoreDeletions,
    handle "GET" "/pgauthz/v1/admin/stores/{store}/model" .adminStoreModel,
    handle "PUT" "/pgauthz/v1/admin/stores/{store}/model" .adminApplyModel,
    handle "GET" "/pgauthz/v1/admin/groups" .adminGroups,
    handle "PUT" "/pgauthz/v1/admin/groups/{group}" .adminUpsertGroup,
    handle "DELETE" "/pgauthz/v1/admin/groups/{group}" .adminDeleteGroup,
    handle "PUT" "/pgauthz/v1/admin/stores/{store}/group" .adminSetStoreGroup,
    handle "GET" "/pgauthz/v1/admin/groups/{group}/consumers" .adminModelConsumers,
    handle "PUT" "/pgauthz/v1/admin/groups/{group}/consumers/{consumer}" .adminGrantModelConsumer,
    handle "DELETE" "/pgauthz/v1/admin/groups/{group}/consumers/{consumer}" .adminRevokeModelConsumer,
    handle "GET" "/pgauthz/v1/admin/models" .adminModels,
    handle "POST" "/pgauthz/v1/admin/models/test" .adminTestModel,
    handle "POST" "/pgauthz/v1/admin/models/{name}/versions" .adminPublishModel,
    handle "GET" "/pgauthz/v1/admin/models/{name}/rollout" .adminModelRollout]

/-- `registerAdmin`. -/
def registerAdmin : List (Route Handler) :=
  [handle "GET" "/pgauthz/v1/admin/issuers" .adminIssuers,
    handle "GET" "/pgauthz/v1/admin/issuer-bindings" .adminIssuerBindings,
    handle "GET" "/pgauthz/v1/admin/issuer-bindings/audit" .adminIssuerBindingsAudit,
    handle "PUT" "/pgauthz/v1/admin/issuer-bindings" .adminSetIssuerBinding,
    handle "DELETE" "/pgauthz/v1/admin/issuer-bindings" .adminDeleteIssuerBinding]
    ++ registerAdminStores

/-- The settings that decide which routes are registered. -/
structure RouteConfig where
  usesOPA : Bool
  adminAPIEnabled : Bool
  adminListenAddr : String
  rawWrite : Bool
  publicHealthDisabled : Bool
  openAPIEnabled : Bool
  swaggerUIEnabled : Bool

/-- `newPublicMux`: the routes of the public listener. -/
def newPublicMux (cfg : RouteConfig) : List (Route Handler) :=
  registerAuthZEN
    ++ (if !cfg.usesOPA then registerNativeRead ++ registerNativeWrite else [])
    ++ (if cfg.adminAPIEnabled && cfg.adminListenAddr = "" && cfg.rawWrite then registerAdmin else [])
    ++ (if !cfg.publicHealthDisabled then
        [handle "GET" "/healthz" .healthz, handle "GET" "/livez" .livez, handle "GET" "/readyz" .readyz]
      else [])
    ++ (if cfg.openAPIEnabled then
        [handle "GET" "/pgauthz/v1/openapi.json" .openAPIJSON,
          handle "GET" "/pgauthz/v1/openapi.yaml" .openAPIYAML]
        ++ (if cfg.swaggerUIEnabled then
            [handle "GET" "/pgauthz/v1/docs" .swaggerUI,
              handle "GET" "/pgauthz/v1/docs/{asset}" .swaggerUIAsset]
          else [])
      else [])

/-- `newAdminMux`: the routes of the admin listener. -/
def newAdminMux : List (Route Handler) :=
  registerAdmin ++ [handle "GET" "/livez" .livez, handle "GET" "/readyz" .readyz]

/-- The listeners behind the JWT middleware. -/
inductive Listener
  | publicListener | adminListener

/-- The routes of a listener. -/
def Listener.routes (cfg : RouteConfig) : Listener → List (Route Handler)
  | publicListener => newPublicMux cfg
  | adminListener => newAdminMux

/-- The target of a request: `EscapedPath` is what is dispatched on, `Path` is what it decodes to. -/
structure Target where
  escapedPath : Bytes
  path : Bytes
  decoded : unescape escapedPath = some path

/-! ## What is public -/

/-- The segments that a public path starts with, unless it is a discovery document of a store. -/
def publicOpenings : List (List Bytes) :=
  [["healthz"], ["livez"], ["readyz"], [".well-known"], ["pgauthz", "v1", "openapi.json"],
    ["pgauthz", "v1", "openapi.yaml"], ["pgauthz", "v1", "docs"]].map (List.map utf8)

/-- The segments of a public path. -/
def PublicParts (parts : List Bytes) : Prop :=
  (∃ o ∈ publicOpenings, o <+: parts) ∨
    parts.head? = some (utf8 "stores") ∧ parts.getLast? = some (utf8 "authzen-configuration")

theorem exists_publicOpening {path : Bytes} {o : List String} (rest : List Bytes)
    (ho : o.map utf8 ∈ publicOpenings) (h : path.splitOn slash = [] :: (o.map utf8 ++ rest)) :
    ∃ parts, path.splitOn slash = [] :: parts ∧ PublicParts parts :=
  ⟨_, h, Or.inl ⟨_, ho, List.prefix_append _ _⟩⟩

/-- A path behind a directory has the segments of the directory, and its own. -/
theorem splitOn_of_starts {dir : String} {path : Bytes} (h : (utf8 (dir ++ "/")).isPrefixOf path = true) :
    ∃ rest : Bytes, path.splitOn slash = (utf8 dir).splitOn slash ++ rest.splitOn slash := by
  obtain ⟨rest, rfl⟩ := List.isPrefixOf_iff_prefix.mp h
  refine ⟨rest, ?_⟩
  have hslash : utf8 "/" = [slash] := by decide +kernel
  rw [utf8_append, hslash, List.append_assoc, List.singleton_append, List.splitOn_append_cons_self]

/-- **The segments of a public path.** -/
theorem publicParts_of_isPublicPath {path : Bytes} (h : isPublicPath path = true) :
    ∃ parts, path.splitOn slash = [] :: parts ∧ PublicParts parts := by
  unfold isPublicPath isHealthPath at h
  simp only [Bool.or_eq_true, Bool.and_eq_true, decide_eq_true_eq] at h
  rcases h with (((((((rfl | rfl) | rfl) | hdir) | rfl) | rfl) | rfl) | hdir) | ⟨hstores, hlast⟩
  · exact @exists_publicOpening _ ["healthz"] [] (by decide +kernel) (by decide +kernel)
  · exact @exists_publicOpening _ ["livez"] [] (by decide +kernel) (by decide +kernel)
  · exact @exists_publicOpening _ ["readyz"] [] (by decide +kernel) (by decide +kernel)
  · obtain ⟨rest, hrest⟩ := @splitOn_of_starts "/.well-known" _ hdir
    have hopen : (utf8 "/.well-known").splitOn slash = [] :: [".well-known"].map utf8 := by decide +kernel
    rw [hopen] at hrest
    exact exists_publicOpening _ (by decide +kernel) hrest
  · exact @exists_publicOpening _ ["pgauthz", "v1", "openapi.json"] [] (by decide +kernel) (by decide +kernel)
  · exact @exists_publicOpening _ ["pgauthz", "v1", "openapi.yaml"] [] (by decide +kernel) (by decide +kernel)
  · exact @exists_publicOpening _ ["pgauthz", "v1", "docs"] [] (by decide +kernel) (by decide +kernel)
  · obtain ⟨rest, hrest⟩ := splitOn_of_starts hdir
    have hopen : (utf8 swaggerUIPath).splitOn slash = [] :: ["pgauthz", "v1", "docs"].map utf8 := by
      decide +kernel
    rw [hopen] at hrest
    exact exists_publicOpening _ (by decide +kernel) hrest
  · -- the suffix ends the last segment, and the directory is the first one
    obtain ⟨rest, hrest⟩ := @splitOn_of_starts "/stores" _ hstores
    have hopen : (utf8 "/stores").splitOn slash = [[], utf8 "stores"] := by decide +kernel
    rw [hopen] at hrest
    refine ⟨utf8 "stores" :: rest.splitOn slash, hrest, Or.inr ⟨rfl, ?_⟩⟩
    obtain ⟨front, rfl⟩ := List.isSuffixOf_iff_suffix.mp hlast
    have hend : utf8 "/.well-known/authzen-configuration" =
        utf8 "/.well-known" ++ slash :: utf8 "authzen-configuration" := by decide +kernel
    have hone : (utf8 "authzen-configuration").splitOn slash = [utf8 "authzen-configuration"] := by
      decide +kernel
    rw [hend, ← List.append_assoc, List.splitOn_append_cons_self, hone] at hrest
    have hlastOf := congrArg List.getLast? hrest
    rw [List.getLast?_append_of_ne_nil _ (List.cons_ne_nil _ _)] at hlastOf
    rw [List.cons_append, List.cons_append, List.getLast?_cons_cons] at hlastOf
    exact hlastOf.symm

/-! ## What is behind the token -/

/-- The literals that a pattern starts with. -/
def opening : List Seg → List Bytes
  | .lit l :: segs => l :: opening segs
  | _ => []

/-- A literal of a pattern holds no slash. -/
def plainSeg : Seg → Bool
  | .lit l => l.splitOn slash = [l]
  | .wild => true

/-- No path that fits the pattern has the segments of a public path: it starts otherwise than each of them
does, and it does not start as the path of a store, or ends otherwise than a discovery document does. -/
def barred (pattern : List Seg) : Bool :=
  pattern.all plainSeg &&
    publicOpenings.all (fun o => !o.isPrefixOf (opening pattern) && !(opening pattern).isPrefixOf o) &&
    ((opening pattern).head? ≠ some (utf8 "stores") ||
      match pattern.getLast? with
      | some (.lit l) => l ≠ utf8 "authzen-configuration"
      | _ => false)

/-- The segments that a path gets from a pattern. -/
def expand (segs : List Bytes) : List Bytes := (segs.map pathUnescape).flatMap (List.splitOn slash)

theorem expand_cons_lit {l s : Bytes} {segs : List Bytes} (hplain : plainSeg (.lit l) = true)
    (hs : pathUnescape s = l) : expand (s :: segs) = l :: expand segs := by
  unfold expand
  rw [List.map_cons, List.flatMap_cons, hs, of_decide_eq_true hplain, List.singleton_append]

/-- A path starts with the literals that its pattern starts with. -/
theorem opening_prefix {pattern : List Seg} {segs : List Bytes} (hplain : pattern.all plainSeg = true)
    (h : Fits pattern segs) : opening pattern <+: expand segs := by
  induction h with
  | nil => exact List.nil_prefix
  | @cons seg s pattern segs hseg _ ih =>
    cases seg with
    | wild => exact List.nil_prefix
    | lit l =>
      rw [List.all_cons, Bool.and_eq_true] at hplain
      rw [expand_cons_lit hplain.1 hseg, opening, List.prefix_cons_inj]
      exact ih hplain.2

/-- A path ends with the literal that its pattern ends with. -/
theorem getLast?_expand {pattern : List Seg} {segs : List Bytes} {l : Bytes}
    (hplain : pattern.all plainSeg = true) (h : Fits pattern segs)
    (hlast : pattern.getLast? = some (.lit l)) : (expand segs).getLast? = some l := by
  induction h with
  | nil => cases hlast
  | @cons seg s pattern segs hseg htail ih =>
    rw [List.all_cons, Bool.and_eq_true] at hplain
    cases htail with
    | nil =>
      obtain rfl : seg = .lit l := Option.some.inj hlast
      rw [expand_cons_lit hplain.1 hseg]
      rfl
    | cons =>
      rw [List.getLast?_cons_cons] at hlast
      have hrest := ih hplain.2 hlast
      unfold expand at hrest ⊢
      rw [List.map_cons, List.flatMap_cons, List.getLast?_append, hrest]
      rfl

/-- **No path that fits a barred pattern has the segments of a public path.** -/
theorem not_publicParts_of_barred {pattern : List Seg} {segs : List Bytes} (hbarred : barred pattern = true)
    (h : Fits pattern segs) : ¬ PublicParts (expand segs) := by
  unfold barred at hbarred
  rw [Bool.and_eq_true, Bool.and_eq_true, Bool.or_eq_true, decide_eq_true_eq] at hbarred
  obtain ⟨⟨hplain, hopenings⟩, hdocument⟩ := hbarred
  have hprefix := opening_prefix hplain h
  rintro (⟨o, ho, hpublic⟩ | ⟨hhead, hlast⟩)
  · -- two starts of one path are comparable
    have hne := List.all_eq_true.mp hopenings o ho
    rw [Bool.and_eq_true, Bool.not_eq_true', Bool.not_eq_true', Bool.eq_false_iff, Bool.eq_false_iff, Ne, Ne,
      List.isPrefixOf_iff_prefix, List.isPrefixOf_iff_prefix] at hne
    rcases List.prefix_or_prefix_of_prefix hpublic hprefix with hle | hle
    · exact hne.1 hle
    · exact hne.2 hle
  · rcases hdocument with hstores | hend
    · cases hopen : opening pattern with
      | nil =>
        have hne := List.all_eq_true.mp hopenings [utf8 "healthz"] List.mem_cons_self
        rw [hopen] at hne
        cases hne
      | cons l rest =>
        rw [hopen] at hprefix
        obtain ⟨more, hmore⟩ := hprefix
        rw [← hmore, List.cons_append, List.head?_cons] at hhead
        rw [hopen, List.head?_cons] at hstores
        exact hstores hhead
    · split at hend
      · rename_i l hl
        rw [getLast?_expand hplain h hl] at hlast
        exact of_decide_eq_true hend (Option.some.inj hlast)
      · cases hend

/-- A route has a public handler or a barred pattern. -/
def guarded (r : Route Handler) : Bool := r.handler.isPublic || barred r.segs

theorem guarded_registerAdmin : registerAdmin.all guarded = true := by decide +kernel

theorem guarded_native : (registerNativeRead ++ registerNativeWrite).all guarded = true := by decide +kernel

/-- **Every route has a public handler or a barred pattern.** -/
theorem guarded_routes (cfg : RouteConfig) (listener : Listener) :
    (listener.routes cfg).all guarded = true := by
  cases listener with
  | publicListener =>
    have hauthzen : registerAuthZEN.all guarded = true := by decide +kernel
    simp only [Listener.routes, newPublicMux, List.all_append, hauthzen, Bool.true_and, Bool.and_eq_true]
    refine ⟨⟨⟨?_, ?_⟩, ?_⟩, ?_⟩
    · split
      · exact guarded_native
      · rfl
    · split
      · exact guarded_registerAdmin
      · rfl
    · split <;> rfl
    · split
      · split <;> rfl
      · rfl
  | adminListener =>
    rw [Listener.routes, newAdminMux, List.all_append, guarded_registerAdmin]
    rfl

/-- A route that the segments of a public path fit has a public handler. -/
theorem isPublic_of_fits {cfg : RouteConfig} {listener : Listener} {target : Target} {segs : List Bytes}
    {r : Route Handler} (hpublic : isPublicPath target.path = true)
    (hsegs : target.escapedPath.splitOn slash = [] :: segs) (hr : r ∈ listener.routes cfg)
    (hfits : Fits r.segs segs) : r.handler.isPublic = true := by
  have hguarded := List.all_eq_true.mp (guarded_routes cfg listener) r hr
  rw [guarded, Bool.or_eq_true] at hguarded
  rcases hguarded with hhandler | hbarred
  · exact hhandler
  · obtain ⟨parts, hparts, hpublicParts⟩ := publicParts_of_isPublicPath hpublic
    have hsplit := splitOn_unescape target.decoded
    rw [hparts, hsegs, List.map_cons, List.flatMap_cons] at hsplit
    obtain rfl : parts = expand segs := (List.cons.inj hsplit).2
    exact absurd hpublicParts (not_publicParts_of_barred hbarred hfits)

/--
**Public paths expose only public routes.** If the middleware lets a request through without a token because
of its path, then the handler that the request is dispatched to, if there is one, is a health, discovery,
OpenAPI or Swagger handler.
-/
theorem public_of_isPublicPath (cfg : RouteConfig) (listener : Listener) (method : String) (target : Target)
    (hpublic : isPublicPath target.path = true) :
    ∀ handler, dispatch (listener.routes cfg) method target.escapedPath = some handler →
      handler.isPublic = true := by
  intro handler hdispatch
  obtain ⟨segs, hsegs, r, hr, rfl, hfits⟩ := exists_route_of_dispatch hdispatch
  exact isPublic_of_fits hpublic hsegs hr hfits

/-- The discovery document of a store whose name is sent with an escaped slash. -/
theorem public_of_isPublicPath_discovery :
    dispatch (Listener.publicListener.routes ⟨true, true, "", true, true, true, true⟩) "GET"
        (utf8 "/stores/a%2Fb/.well-known/authzen-configuration") = some .wellKnown ∧
      Handler.wellKnown.isPublic = true := by
  have hdispatch : dispatch (Listener.publicListener.routes ⟨true, true, "", true, true, true, true⟩) "GET"
      (utf8 "/stores/a%2Fb/.well-known/authzen-configuration") = some .wellKnown := by decide +kernel
  exact ⟨hdispatch, public_of_isPublicPath _ .publicListener "GET"
    ⟨_, utf8 "/stores/a/b/.well-known/authzen-configuration", by decide +kernel⟩ (by decide +kernel) _ hdispatch⟩

/-- An escaped path that is public for the middleware, and a store with a long name for the multiplexer. -/
example : isPublicPath (utf8 "/stores/a/.well-known/authzen-configuration") = true ∧
    dispatch (Listener.publicListener.routes ⟨true, true, "", true, true, true, true⟩) "GET"
      (utf8 "/stores/a%2F.well-known%2Fauthzen-configuration") = none := by decide +kernel

/-- `JWTMiddleware.Middleware` in front of the multiplexer: a request without an accepted credential goes on
only for its path. -/
def answeredBy (cfg : RouteConfig) (listener : Listener) (method : String) (target : Target)
    (credential : Bool) : Option Handler :=
  if isPublicPath target.path || credential then dispatch (listener.routes cfg) method target.escapedPath
  else none

theorem isPublic_of_answeredBy {cfg : RouteConfig} {listener : Listener} {method : String} {target : Target}
    {handler : Handler} (h : answeredBy cfg listener method target false = some handler) :
    handler.isPublic = true := by
  unfold answeredBy at h
  rw [Bool.or_false] at h
  split at h
  · rename_i hpublic
    obtain ⟨segs, hsegs, r, hr, rfl, hfits⟩ := exists_route_of_dispatch h
    exact isPublic_of_fits hpublic hsegs hr hfits
  · cases h

end PgAuthz.Daemon
