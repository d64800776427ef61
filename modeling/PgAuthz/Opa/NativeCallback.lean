import Mathlib
import PgAuthz.Daemon.StoreReach
import PgAuthz.Text.Url

/-!
# The store of a policy callback

On an instance with a policy engine in front, the daemon checks the store of a request against the
issuer's patterns and hands it to the policies as text. The policies look up the hooks of the store
under this text, and they call the daemon back under a URL that the text is pasted into. The callback
serves the store that it finds in the parsed path.

A `?` or a `#` in the text ends the path, so that the text chooses the endpoint and another store, and
an escape in it is decoded. In all other cases the callback serves the store of the request.

## Main definitions

* `NativeCall`, `nativePath`: the calls of the policies and their URLs
* `callbackRoutes`, `route`, `nativeCallback`: what the callback listener serves
* `StoreKept`: the callback serves the endpoint and the store of the request, with its hooks
* `Diverted`: the texts that lead to another endpoint or store

## Main results

* `store_kept_iff`: the store is kept exactly for the texts that are not diverted
-/

namespace PgAuthz.Opa

open Url Daemon

/-! ## The calls of the policies -/

/-- The calls of the decision, batch, search and write rules. -/
inductive NativeCall
  | check
  | explain
  | checkBatch
  | listObjects
  | listSubjects
  | listActions
  | write
  | delete
  | deleteUser
  | writeChecked
  | grant
  | revoke
deriving DecidableEq, Repr

/-- All calls. -/
def nativeCalls : List NativeCall :=
  [.check, .explain, .checkBatch, .listObjects, .listSubjects, .listActions, .write, .delete,
    .deleteUser, .writeChecked, .grant, .revoke]

/-- The endpoint that a rule intends. -/
def NativeCall.suffix : NativeCall → String
  | check => "check"
  | explain => "explain"
  | checkBatch => "check-batch"
  | listObjects => "list-objects"
  | listSubjects => "list-subjects"
  | listActions => "list-actions"
  | write => "write"
  | delete => "delete"
  | deleteUser => "delete-user"
  | writeChecked => "write-checked"
  | grant => "grant"
  | revoke => "revoke"

/-- The writes have a callback of their own. -/
def NativeCall.isWrite : NativeCall → Bool
  | check | explain | checkBatch | listObjects | listSubjects | listActions => false
  | write | delete | deleteUser | writeChecked | grant | revoke => true

/-- A callback listener: its address, and whether its instance can write. -/
structure Callback where
  url : Origin
  writer : Bool

/-- `config.native_url` and `config.native_write_url`. -/
structure NativeConfig where
  native : Callback
  nativeWrite : Callback

/-- The listener of a call. -/
def NativeConfig.callback (cfg : NativeConfig) (call : NativeCall) : Callback :=
  if call.isWrite then cfg.nativeWrite else cfg.native

/-- `_native_path`, and the URL of `_native_write`. -/
def nativePath (cb : Callback) (store suffix : String) : Bytes :=
  cb.url.text ++ utf8 ("/stores/" ++ store ++ "/pgauthz/v1/" ++ suffix)

/-! ## The callback listener -/

/-- The endpoints of `registerNativeRead` below a store. -/
def readRoutes : List String :=
  ["relation-usage", "explain", "watch", "grant-options", "check", "check-batch", "list-objects",
    "list-subjects", "list-actions"]

/-- The endpoints of `registerNativeWrite` below a store. -/
def writeRoutes : List String :=
  ["write", "delete", "delete-user", "write-checked", "grant", "revoke", "apply-grants", "events",
    "events/reserve"]

/-- The endpoints of a listener: those for writes only on an instance that can write. -/
def callbackRoutes (writer : Bool) : List String :=
  readRoutes ++ if writer then writeRoutes else []

/-- The route `/stores/{store}/pgauthz/v1/...` of a parsed path: its store and its endpoint. -/
def route (writer : Bool) (path : Bytes) : Option (Bytes × String) :=
  if (utf8 "/stores/").isPrefixOf path then
    let tail := path.drop (utf8 "/stores/").length
    let store := tail.takeWhile (· ≠ slash)
    let rest := tail.dropWhile (· ≠ slash)
    ((callbackRoutes writer).find? fun ep => utf8 ("/pgauthz/v1/" ++ ep) = rest).map (store, ·)
  else none

/-- The stores of the engine. Their names are checked when they are created. -/
structure StoreNames where
  names : List String
  plain : ∀ name ∈ names, plainName name = true

/-- The store and the endpoint that a callback serves, none if it is refused: the URL does not parse,
there is no such route, or the engine has no such store. -/
def nativeCallback (cfg : NativeConfig) (stores : StoreNames) (call : NativeCall) (store : String) :
    Option (String × String) :=
  let cb := cfg.callback call
  (parsePath (nativePath cb store call.suffix)).bind fun path =>
    (route cb.writer path).bind fun r =>
      (stores.names.find? fun name => utf8 name = r.1).map (·, r.2)

/-- The hooks of the store tier that the policies consult: those mounted under the store. -/
def storeHooks (hooks : List (String × List String)) (store : String) : List String :=
  (hooks.lookup store).getD []

/-- If the daemon admits the store, then the callback runs the intended endpoint on this store, with
the hooks of this store, or it is refused. -/
def StoreKept (lib : GoLib) (set : IssuerSet) (iss : String) (cfg : NativeConfig)
    (stores : StoreNames) (hooks : List (String × List String)) (call : NativeCall)
    (store : String) : Prop :=
  storeChecked lib set iss store = true →
    ∀ name ep, nativeCallback cfg stores call store = some (name, ep) →
      ep = call.suffix ∧ name = store ∧ storeHooks hooks store = storeHooks hooks name

/-- **The texts that are diverted.** They parse, and either they have an escape and decode to the name
of a store, or they have a mark and what stands before it decodes to the name of a store with an
endpoint of the listener behind it. -/
def Diverted (cfg : NativeConfig) (stores : StoreNames) (call : NativeCall) (store : String) : Prop :=
  let routes := callbackRoutes (cfg.callback call).writer
  parsable (utf8 store) = true ∧
    if pathPart (utf8 store) = utf8 store then
      call.suffix ∈ routes ∧
        ∃ name ∈ stores.names, name ≠ store ∧ unescape (utf8 store) = some (utf8 name)
    else
      ∃ name ∈ stores.names, ∃ ep ∈ routes,
        unescape (pathPart (utf8 store)) = some (utf8 (name ++ "/pgauthz/v1/" ++ ep))

/-! ## Names and routes -/

theorem plainName_chars {name : String} (h : plainName name = true) :
    ∀ c ∈ name.toList, (c.isAlphanum || c == '_') = true := by
  unfold plainName at h
  split at h
  · cases h
  · rename_i a as hl
    simp only [Bool.and_eq_true, List.all_eq_true] at h
    rw [hl]
    intro c hc
    rcases List.mem_cons.mp hc with rfl | hc
    · have hfirst := h.1.1
      simp only [Char.isAlphanum, Bool.or_eq_true] at hfirst ⊢
      rcases hfirst with hfirst | hfirst
      · exact .inl (.inl hfirst)
      · exact .inr hfirst
    · exact h.1.2 c hc

/-- A letter, a digit or an underscore is one byte, which is a digit or from `A` to `z`. -/
theorem byte_of_mem_encode {c : Char} (h : (c.isAlphanum || c == '_') = true) {b : UInt8}
    (hb : b ∈ String.utf8EncodeChar c) :
    (48 ≤ b.toNat ∧ b.toNat ≤ 57) ∨ 65 ≤ b.toNat ∧ b.toNat ≤ 122 := by
  have hrange : (48 ≤ c.toNat ∧ c.toNat ≤ 57) ∨ 65 ≤ c.toNat ∧ c.toNat ≤ 122 := by
    simp only [Char.isAlphanum, Char.isAlpha, Char.isUpper, Char.isLower, Char.isDigit,
      Bool.or_eq_true, Bool.and_eq_true, decide_eq_true_eq, ge_iff_le, UInt32.le_iff_toNat_le,
      beq_iff_eq] at h
    have hval : c.val.toNat = c.toNat := rfl
    rcases h with ((⟨h₁, h₂⟩ | ⟨h₁, h₂⟩) | ⟨h₁, h₂⟩) | rfl
    · exact .inr ⟨h₁, le_trans h₂ (by decide)⟩
    · exact .inr ⟨le_trans (by decide) h₁, h₂⟩
    · exact .inl ⟨h₁, h₂⟩
    · decide
  rw [String.utf8EncodeChar_eq_singleton (Char.utf8Size_eq_one_iff.mpr (by
    rw [UInt32.le_iff_toNat_le]
    show c.toNat ≤ 127
    omega)), List.mem_singleton] at hb
  have hnat : b.toNat = c.toNat % 256 := congrArg UInt8.toNat hb
  omega

/-- The bytes of a plain name. -/
theorem byte_of_plainName {name : String} (h : plainName name = true) {b : UInt8}
    (hb : b ∈ utf8 name) : (48 ≤ b.toNat ∧ b.toNat ≤ 57) ∨ 65 ≤ b.toNat ∧ b.toNat ≤ 122 := by
  have hbytes : utf8 name = name.toList.flatMap String.utf8EncodeChar := by
    rw [utf8, ← String.utf8Encode_toList]
    simp [List.utf8Encode]
  rw [hbytes, List.mem_flatMap] at hb
  obtain ⟨c, hc, hb⟩ := hb
  exact byte_of_mem_encode (plainName_chars h c hc) hb

theorem slash_not_mem_of_plainName {name : String} (h : plainName name = true) :
    slash ∉ utf8 name := by
  intro hslash
  have hrange : (48 ≤ 47 ∧ 47 ≤ 57) ∨ 65 ≤ 47 ∧ 47 ≤ 122 := byte_of_plainName h hslash
  omega

/-- Parsing leaves a plain name as it is. -/
theorem plain_of_plainName {name : String} (h : plainName name = true) :
    ∀ b ∈ utf8 name, Plain b := by
  intro b hb
  have hrange := byte_of_plainName h hb
  -- the marks and the control characters are below the digits or between them and the letters
  have hne : ∀ c : UInt8, c.toNat < 48 ∨ (57 < c.toNat ∧ c.toNat < 65) → b ≠ c := by
    rintro c hc rfl
    omega
  refine ⟨hne hash (by decide), hne question (by decide), hne percent (by decide), ?_⟩
  have hdel : b ≠ 0x7F := by
    rintro rfl
    have h127 : (0x7F : UInt8).toNat = 127 := rfl
    omega
  have hlow : ¬ b < 0x20 := by
    rw [UInt8.lt_iff_toNat_lt]
    have h32 : (0x20 : UInt8).toNat = 32 := rfl
    omega
  simp [isCtl, hdel, hlow]

/-- The text of a route does not go on behind the text of a call. -/
theorem no_call_within_route (writer : Bool) (call : NativeCall) {ep : String}
    (hep : ep ∈ callbackRoutes writer) :
    ¬ utf8 ("/pgauthz/v1/" ++ call.suffix) <:+ utf8 ("pgauthz/v1/" ++ ep) := by
  have hall : ∀ call ∈ nativeCalls, ∀ ep ∈ callbackRoutes true,
      ¬ utf8 ("/pgauthz/v1/" ++ call.suffix) <:+ utf8 ("pgauthz/v1/" ++ ep) := by decide +kernel
  refine hall call (by cases call <;> decide) ep ?_
  cases writer with
  | true => exact hep
  | false => exact List.mem_append_left _ (by simpa [callbackRoutes] using hep)

/-! ## What a callback serves -/

section Callback

variable {cfg : NativeConfig} {stores : StoreNames} {call : NativeCall} {store : String}

/-- A text that is cut at its first slash. -/
theorem cut_slash {p : Bytes} (h : slash ∉ p) (rest : Bytes) :
    (p ++ slash :: rest).takeWhile (· ≠ slash) = p ∧
      (p ++ slash :: rest).dropWhile (· ≠ slash) = slash :: rest := by
  have hall : ∀ b ∈ p, decide (b ≠ slash) = true := fun b hb => by
    simp only [ne_eq, decide_not, Bool.not_eq_true', decide_eq_false_iff_not]
    rintro rfl
    exact h hb
  rw [takeWhile_append_of_all hall, dropWhile_append_of_all hall]
  simp

theorem utf8_route (ep : String) :
    utf8 ("/pgauthz/v1/" ++ ep) = slash :: utf8 ("pgauthz/v1/" ++ ep) := by
  rw [utf8_append, utf8_append]
  rfl

/-- The parsed path of the URL of a call. -/
theorem parsePath_nativePath (cb : Callback) (store suffix : String)
    (hsuffix : ∀ b ∈ utf8 suffix, Plain b) :
    parsePath (nativePath cb store suffix) =
      if parsable (utf8 store) then
        (unescape (pathPart (utf8 store))).map fun p => utf8 "/stores/" ++ (p ++
          if pathPart (utf8 store) = utf8 store then utf8 ("/pgauthz/v1/" ++ suffix) else [])
      else none := by
  have hstores : utf8 "/stores/" = slash :: utf8 "stores/" := rfl
  have htail : ∀ b ∈ utf8 ("pgauthz/v1/" ++ suffix), Plain b := by
    rw [utf8_append]
    intro b hb
    rcases List.mem_append.mp hb with hb | hb
    · have hall : ∀ b ∈ utf8 "pgauthz/v1/", Plain b := by decide +kernel
      exact hall b hb
    · exact hsuffix b hb
  have hall : ∀ b ∈ utf8 "/stores/", Plain b := by decide +kernel
  have hurl : utf8 ("/stores/" ++ store ++ "/pgauthz/v1/" ++ suffix) =
      utf8 "/stores/" ++ (utf8 store ++ slash :: utf8 ("pgauthz/v1/" ++ suffix)) := by
    rw [String.append_assoc, String.append_assoc, utf8_append, utf8_append, utf8_route]
  have hhead : utf8 "/stores/" ++ (utf8 store ++ slash :: utf8 ("pgauthz/v1/" ++ suffix)) =
      slash :: (utf8 "stores/" ++ (utf8 store ++ slash :: utf8 ("pgauthz/v1/" ++ suffix))) := by
    rw [hstores, List.cons_append]
  rw [nativePath, hurl, hhead, parsePath_append, ← hhead, parseTarget_append hall htail, utf8_route]

theorem plain_suffix (call : NativeCall) : ∀ b ∈ utf8 call.suffix, Plain b := by
  have hall : (utf8 call.suffix).all (Plain ·) = true := by cases call <;> decide +kernel
  exact List.all_iff_forall_prop.mp hall

/-- The member of a list with a given image. -/
theorem find?_of_injective {α β : Type} [DecidableEq β] {f : α → β} (hf : Function.Injective f)
    {l : List α} {x : α} (hx : x ∈ l) : (l.find? fun a => decide (f a = f x)) = some x := by
  cases hfind : l.find? fun a => decide (f a = f x) with
  | none => simpa using List.find?_eq_none.mp hfind x hx
  | some a =>
    have heq : f a = f x := by simpa using List.find?_some hfind
    rw [hf heq]

/-- The route of a path below `/stores/`. -/
theorem route_stores {writer : Bool} {x : Bytes} {st : Bytes} {ep : String} :
    route writer (utf8 "/stores/" ++ x) = some (st, ep) ↔
      ep ∈ callbackRoutes writer ∧ slash ∉ st ∧ x = st ++ utf8 ("/pgauthz/v1/" ++ ep) := by
  unfold route
  rw [if_pos (by simp), List.drop_left]
  dsimp only
  constructor
  · intro h
    obtain ⟨ep', hfind, heq⟩ := Option.map_eq_some_iff.mp h
    obtain ⟨rfl, rfl⟩ := Prod.mk.inj heq
    have hrest := List.find?_some hfind
    rw [decide_eq_true_eq] at hrest
    refine ⟨List.mem_of_find?_eq_some hfind, fun hmem => ?_, ?_⟩
    · simpa using List.mem_takeWhile_imp hmem
    · rw [hrest, List.takeWhile_append_dropWhile]
  · rintro ⟨hep, hst, rfl⟩
    rw [utf8_route, (cut_slash hst _).1, (cut_slash hst _).2, ← utf8_route]
    -- no two routes have the same text
    have hinj : Function.Injective fun ep : String => utf8 ("/pgauthz/v1/" ++ ep) := by
      intro ep ep' heq
      simp only [utf8_append, List.append_cancel_left_eq] at heq
      exact utf8_injective heq
    rw [find?_of_injective hinj hep]
    rfl

/-- **What a callback serves**: the text before the first mark decodes, with what follows it if there
is no mark, to the name of a store and an endpoint. -/
theorem nativeCallback_eq_some {name ep : String} :
    nativeCallback cfg stores call store = some (name, ep) ↔
      parsable (utf8 store) = true ∧ name ∈ stores.names ∧
        ep ∈ callbackRoutes (cfg.callback call).writer ∧
        ∃ p, unescape (pathPart (utf8 store)) = some p ∧
          (p ++ if pathPart (utf8 store) = utf8 store then utf8 ("/pgauthz/v1/" ++ call.suffix)
            else []) = utf8 name ++ utf8 ("/pgauthz/v1/" ++ ep) := by
  unfold nativeCallback
  dsimp only
  rw [parsePath_nativePath _ _ _ (plain_suffix call)]
  by_cases hparse : parsable (utf8 store) = true
  · rw [if_pos hparse]
    simp only [hparse, true_and]
    cases hp : unescape (pathPart (utf8 store)) with
    | none => simp
    | some p =>
      simp only [Option.map_some, Option.bind_some, Option.some.injEq, exists_eq_left']
      rw [Option.bind_eq_some_iff]
      constructor
      · rintro ⟨⟨st, ep'⟩, hroute, hname⟩
        obtain ⟨hep, -, heq⟩ := route_stores.mp hroute
        obtain ⟨name', hfind, hpair⟩ := Option.map_eq_some_iff.mp hname
        obtain ⟨rfl, rfl⟩ := Prod.mk.inj hpair
        have hst := List.find?_some hfind
        rw [decide_eq_true_eq] at hst
        exact ⟨List.mem_of_find?_eq_some hfind, hep, by rw [heq, hst]⟩
      · rintro ⟨hname, hep, heq⟩
        have hslash := slash_not_mem_of_plainName (stores.plain name hname)
        refine ⟨(utf8 name, ep), route_stores.mpr ⟨hep, hslash, heq⟩, ?_⟩
        rw [find?_of_injective utf8_injective hname]
        rfl
  · rw [if_neg hparse]
    simp [hparse]

/-- Without a mark, the callback serves the intended endpoint on the decoded text. -/
theorem callback_unmarked {p : Bytes} {name ep : String} (hname : name ∈ stores.names)
    (hep : ep ∈ callbackRoutes (cfg.callback call).writer)
    (heq : p ++ utf8 ("/pgauthz/v1/" ++ call.suffix) = utf8 name ++ utf8 ("/pgauthz/v1/" ++ ep)) :
    p = utf8 name ∧ ep = call.suffix := by
  have hslash := slash_not_mem_of_plainName (stores.plain name hname)
  rw [utf8_route, utf8_route] at heq
  by_cases hp : slash ∈ p
  · -- the text would hold the name, and a route would go on behind the call
    exfalso
    obtain ⟨p₁, p₂, rfl⟩ := List.append_of_mem hp
    have hwhole : p₁ ++ slash :: p₂ <+: utf8 name ++ slash :: utf8 ("pgauthz/v1/" ++ ep) :=
      ⟨_, heq⟩
    have hprefix : utf8 name <+: p₁ ++ slash :: p₂ := by
      refine List.prefix_of_prefix_length_le (List.prefix_append _ _) hwhole ?_
      by_contra hlong
      -- the name would reach over the slash
      have hcover : p₁ ++ slash :: p₂ <+: utf8 name :=
        List.prefix_of_prefix_length_le hwhole (List.prefix_append _ _) (by omega)
      exact hslash (hcover.subset hp)
    obtain ⟨q, hq⟩ := hprefix
    rw [← hq, List.append_assoc, List.append_cancel_left_eq] at heq
    cases q with
    | nil =>
      rw [List.append_nil] at hq
      exact hslash (hq ▸ hp)
    | cons b q =>
      rw [List.cons_append, List.cons.injEq, ← utf8_route] at heq
      exact no_call_within_route _ call hep ⟨q, heq.2⟩
  · have htake := congrArg (List.takeWhile (· ≠ slash)) heq
    rw [(cut_slash hp _).1, (cut_slash hslash _).1] at htake
    subst htake
    rw [List.append_cancel_left_eq, List.cons.injEq, utf8_append, utf8_append,
      List.append_cancel_left_eq] at heq
    exact ⟨rfl, (utf8_injective heq.2).symm⟩

/-- The name of a store is served as it is. -/
theorem nativeCallback_of_mem (hstore : store ∈ stores.names)
    (hroute : call.suffix ∈ callbackRoutes (cfg.callback call).writer) :
    nativeCallback cfg stores call store = some (store, call.suffix) := by
  have hplain := plain_of_plainName (stores.plain store hstore)
  have hhash : hash ∉ utf8 store := fun h => (hplain hash h).1 rfl
  have hpart : pathPart (utf8 store) = utf8 store :=
    pathPart_eq_self_iff.mpr ⟨fun h => (hplain question h).2.1 rfl, hhash⟩
  have hparse : parsable (utf8 store) = true := by
    have hctl : (utf8 store).any isCtl = false := by
      simpa [List.any_eq_false] using fun b hb => (hplain b hb).2.2.2
    rw [parsable, (cut_of_not_mem hhash).1, (cut_of_not_mem hhash).2, hctl]
    rfl
  refine nativeCallback_eq_some.mpr ⟨hparse, hstore, hroute, utf8 store, ?_, ?_⟩
  · rw [hpart]
    exact unescape_of_no_percent fun b hb => (hplain b hb).2.2.1
  · rw [if_pos hpart]

/-- Behind a mark, the callback serves another store. -/
theorem callback_marked {p : Bytes} {name ep : String}
    (hp : unescape (pathPart (utf8 store)) = some p)
    (heq : p = utf8 name ++ utf8 ("/pgauthz/v1/" ++ ep)) : name ≠ store := by
  rintro rfl
  have hlen : p.length ≤ (pathPart (utf8 name)).length := by
    rcases unescape_eq_or_lt hp with rfl | hlt
    · exact le_rfl
    · exact hlt.le
  have hpart : (pathPart (utf8 name)).length ≤ (utf8 name).length :=
    (List.takeWhile_prefix _).length_le
  rw [heq, List.length_append, utf8_route, List.length_cons] at hlen
  omega

theorem diverted_iff :
    Diverted cfg stores call store ↔
      ∃ name ep, nativeCallback cfg stores call store = some (name, ep) ∧
        ¬ (ep = call.suffix ∧ name = store) := by
  unfold Diverted
  simp only [nativeCallback_eq_some]
  by_cases hmark : pathPart (utf8 store) = utf8 store
  · simp only [if_pos hmark]
    rw [hmark]
    constructor
    · rintro ⟨hparse, hsuffix, name, hname, hne, hp⟩
      exact ⟨name, call.suffix, ⟨hparse, hname, hsuffix, _, hp, rfl⟩, fun h => hne h.2⟩
    · rintro ⟨name, ep, ⟨hparse, hname, hep, p, hp, heq⟩, hne⟩
      obtain ⟨rfl, rfl⟩ := callback_unmarked hname hep heq
      exact ⟨hparse, hep, name, hname, fun h => hne ⟨rfl, h⟩, hp⟩
  · simp only [if_neg hmark, List.append_nil]
    constructor
    · rintro ⟨hparse, name, hname, ep, hep, hp⟩
      rw [String.append_assoc, utf8_append] at hp
      exact ⟨name, ep, ⟨hparse, hname, hep, _, hp, rfl⟩, fun h => callback_marked hp rfl h.2⟩
    · rintro ⟨name, ep, ⟨hparse, hname, hep, p, hp, rfl⟩, -⟩
      refine ⟨hparse, name, hname, ep, hep, ?_⟩
      rw [hp, String.append_assoc, utf8_append name]

end Callback

/-- **The store survives the callback** exactly if the daemon does not admit it or it is not
diverted. -/
theorem store_kept_iff (lib : GoLib) (set : IssuerSet) (iss : String) (cfg : NativeConfig)
    (stores : StoreNames) (hooks : List (String × List String)) (call : NativeCall)
    (store : String) :
    StoreKept lib set iss cfg stores hooks call store ↔
      ¬ (storeChecked lib set iss store = true ∧ Diverted cfg stores call store) := by
  rw [diverted_iff]
  constructor
  · rintro hkept ⟨hadmitted, name, ep, hserved, hne⟩
    obtain ⟨hep, hname, -⟩ := hkept hadmitted name ep hserved
    exact hne ⟨hep, hname⟩
  · intro hnot hadmitted name ep hserved
    by_contra hne
    refine hnot ⟨hadmitted, name, ep, hserved, fun h => hne ⟨h.1, h.2, ?_⟩⟩
    rw [h.2]

/-- The callback of a compose deployment. -/
def composeCallback : Callback where
  url :=
    { scheme := utf8 "http"
      authority := utf8 "pgauthzd-opa:8081"
      scheme_letters := List.all_iff_forall_prop.mp (by decide +kernel)
      authority_host := List.all_iff_forall_prop.mp (by decide +kernel) }
  writer := true

/-- A store with hooks of its own. -/
def demoStores : StoreNames where
  names := ["demo", "payroll"]
  plain := by decide

/-- A check on the store `payroll/pgauthz/v1/check#` is answered for `payroll`, and no hook of `payroll`
is consulted. -/
theorem fragment_diverts_store :
    ¬ StoreKept plainLib (newIssuerSet []) "" ⟨composeCallback, composeCallback⟩ demoStores
      [("payroll", ["four_eyes"])] .check "payroll/pgauthz/v1/check#" := by
  intro h
  have hserved : nativeCallback ⟨composeCallback, composeCallback⟩ demoStores .check
      "payroll/pgauthz/v1/check#" = some ("payroll", "check") := by decide +kernel
  obtain ⟨-, hname, -⟩ := h rfl _ _ hserved
  exact absurd hname (by decide)

end PgAuthz.Opa
