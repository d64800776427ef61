import Mathlib.Data.List.DropRight
import Mathlib.Data.String.Basic
import PgAuthz.Keyed.Table
import PgAuthz.Text.JsonText
import PgAuthz.Text.Url

/-!
# Sealed cursors

The cursor of a filtered page is the last id that was read, which hooks may have hidden. It is sealed
under the first key of a ring, with the query as additional data: the fields of the query, each with its
length before it, and the digest of the context. The backend builds the additional data when it seals,
from the arguments of its call; the handlers build it when they open, from the request.

## Main definitions

* `Aead`: authenticated encryption, as far as the server relies on it
* `SealedCursorAAD`, `canonicalContextHash`: the additional data of a query
* `sealCursorValue`, `unsealCursorValue`: the sealing under a ring of keys
* `SearchRequest`, `SearchRequest.bound`: a search, and the fields that a cursor is bound to

## Main results

* `sealedCursorAAD_inj`: fields can be read from the additional data
* `requestAAD_eq_callAAD`: both sides build the same additional data
* `openCursor_eq_some_iff`: a cursor opens exactly for the bound fields it was sealed for
-/

namespace PgAuthz.CursorSeal

open JsonText (Document)
open Url (Bytes utf8)

/-! ## Additional data -/

/-- The colon after a length. -/
def colon : UInt8 := 58

/-- A number in decimal. -/
def decimal (n : ℕ) : Bytes := (Nat.toDigits 10 n).map fun c => UInt8.ofNat c.toNat

/-- A field with its length before it. -/
def netstring (f : Bytes) : Bytes := decimal f.length ++ colon :: f

/-- `SealedCursorAAD` -/
def sealedCursorAAD (op store actorID subjectType subjectID action objectType objectID
    contextHash : Bytes) : Bytes :=
  [utf8 "pgauthz-cursor-v1", op, store, actorID, subjectType, subjectID, action, objectType, objectID,
    contextHash].flatMap netstring

theorem toNat_of_mem_toDigits {n : ℕ} {c : Char} (h : c ∈ Nat.toDigits 10 n) :
    48 ≤ c.toNat ∧ c.toNat ≤ 57 := by
  have hdigit : c.isDigit = true := Nat.isDigit_of_mem_toDigits (by decide) (by decide) h
  rw [Char.isDigit, Bool.and_eq_true, decide_eq_true_eq, decide_eq_true_eq] at hdigit
  exact ⟨hdigit.1, hdigit.2⟩

theorem decimal_injective : Function.Injective decimal := by
  have hback : ∀ n, (decimal n).map (fun b => Char.ofNat b.toNat) = Nat.toDigits 10 n := by
    intro n
    rw [decimal, List.map_map]
    refine (List.map_congr_left fun c hc => ?_).trans (List.map_id _)
    have hc := toNat_of_mem_toDigits hc
    have hlt : c.toNat % 256 = c.toNat := Nat.mod_eq_of_lt (by omega)
    simp [hlt]
  intro m n h
  have hdigits : Nat.toDigits 10 m = Nat.toDigits 10 n := by rw [← hback m, h, hback n]
  have hvalue := congrArg (fun ds => Nat.ofDigitChars 10 ds 0) hdigits
  simpa [Nat.ofDigitChars_ten_toDigits] using hvalue

theorem colon_not_mem_decimal (n : ℕ) : colon ∉ decimal n := by
  intro h
  obtain ⟨c, hc, heq⟩ := List.mem_map.mp h
  have hc := toNat_of_mem_toDigits hc
  have hnat := congrArg UInt8.toNat heq
  have hlt : c.toNat % 256 = c.toNat := Nat.mod_eq_of_lt (by omega)
  simp only [UInt8.toNat_ofNat', hlt, colon] at hnat
  have hcolon : (58 : UInt8).toNat = 58 := rfl
  omega

/-- What comes before the first colon. -/
theorem takeWhile_decimal (n : ℕ) (r : Bytes) :
    (decimal n ++ colon :: r).takeWhile (· ≠ colon) = decimal n := by
  have hall : ∀ b ∈ decimal n, decide (b ≠ colon) = true := fun b hb =>
    decide_eq_true fun h => colon_not_mem_decimal n (h ▸ hb)
  rw [List.takeWhile_append_of_pos hall, List.takeWhile_cons_of_neg (by simp), List.append_nil]

/-- **A field can be read from the front**, whatever bytes it holds and whatever follows. -/
theorem netstring_append_inj {f f' r r' : Bytes} (h : netstring f ++ r = netstring f' ++ r') :
    f = f' ∧ r = r' := by
  rw [netstring, netstring, List.append_assoc, List.append_assoc, List.cons_append,
    List.cons_append] at h
  have hlen : f.length = f'.length := by
    apply decimal_injective
    rw [← takeWhile_decimal f.length (f ++ r), h, takeWhile_decimal]
  rw [hlen] at h
  have hrest := (List.cons.inj (List.append_cancel_left h)).2
  exact List.append_inj hrest hlen

theorem netstrings_inj {fs fs' : List Bytes} (hlen : fs.length = fs'.length)
    (h : fs.flatMap netstring = fs'.flatMap netstring) : fs = fs' := by
  induction fs generalizing fs' with
  | nil => exact (List.length_eq_zero_iff.mp hlen.symm).symm
  | cons f fs ih =>
    cases fs' with
    | nil => cases hlen
    | cons f' fs' =>
      obtain ⟨rfl, hrest⟩ := netstring_append_inj h
      rw [ih (Nat.succ.inj hlen) hrest]

/-- **The additional data determines its fields.** -/
theorem sealedCursorAAD_inj {op store actorID subjectType subjectID action objectType objectID
    contextHash op' store' actorID' subjectType' subjectID' action' objectType' objectID'
    contextHash' : Bytes} :
    sealedCursorAAD op store actorID subjectType subjectID action objectType objectID contextHash =
        sealedCursorAAD op' store' actorID' subjectType' subjectID' action' objectType' objectID'
          contextHash' ↔
      op = op' ∧ store = store' ∧ actorID = actorID' ∧ subjectType = subjectType' ∧
        subjectID = subjectID' ∧ action = action' ∧ objectType = objectType' ∧
        objectID = objectID' ∧ contextHash = contextHash' := by
  constructor
  · intro h
    unfold sealedCursorAAD at h
    have hfields := netstrings_inj (by rfl) h
    simpa using hfields
  · rintro ⟨rfl, rfl, rfl, rfl, rfl, rfl, rfl, rfl, rfl⟩
    rfl

/-! ## Contexts -/

/-- A `map[string]any`: its entries in the order of their keys. -/
abbrev Fields := Keyed.Table (Prod.fst : String × Document → String)

/-- A map as a document. -/
def Fields.document (m : Fields) : Document := .obj (m.rows.map fun e => (e.1.toList, e.2))

/-- The digest of SHA-256 in base64: two texts with one digest are not found. -/
structure Digest where
  sum : List Char → Bytes
  injective : Function.Injective sum
  ne_nil : ∀ text, sum text ≠ []

/-- `CanonicalContextHash`, for a map that may be nil. -/
def canonicalContextHash (d : Digest) (m : Option Fields) : Bytes :=
  match m with
  | none => []
  | some m => if m.rows = [] then [] else d.sum (JsonText.marshal m.document)

/-- What the hash tells of a context: its entries, none if it is nil. -/
def entries (m : Option Fields) : List (String × Document) := (m.map Keyed.Table.rows).getD []

/-- Contexts have one hash exactly if they have the same entries. -/
theorem canonicalContextHash_inj (d : Digest) {m m' : Option Fields} :
    canonicalContextHash d m = canonicalContextHash d m' ↔ entries m = entries m' := by
  have hhash : ∀ m, canonicalContextHash d m = if entries m = [] then []
      else d.sum (JsonText.marshal (.obj ((entries m).map fun e => (e.1.toList, e.2)))) := by
    intro m
    cases m <;> rfl
  rw [hhash, hhash]
  constructor
  · intro h
    split at h <;> split at h
    · simp_all
    · exact absurd h.symm (d.ne_nil _)
    · exact absurd h (d.ne_nil _)
    · have hobj := JsonText.marshal_injective (d.injective h)
      have hkey : Function.Injective fun e : String × Document => (e.1.toList, e.2) := by
        intro e e' he
        obtain ⟨hk, hv⟩ := Prod.mk.inj he
        exact Prod.ext (String.toList_injective hk) hv
      exact (List.map_injective_iff.mpr hkey) (Document.obj.inj hobj)
  · intro h
    rw [h]

/-! ## Sealing -/

/-- Authenticated encryption with additional data, as AES-GCM gives it: what was sealed opens with its
key, its nonce and its additional data, and is rejected for any others. -/
structure Aead where
  Key : Type
  nonceSize : ℕ
  lock : Key → Bytes → Bytes → Bytes → Bytes
  unlock : Key → Bytes → Bytes → Bytes → Option Bytes
  unlock_lock : ∀ k nonce text aad, unlock k nonce (lock k nonce text aad) aad = some text
  rejects : ∀ k k' nonce text aad aad', k' ≠ k ∨ aad' ≠ aad →
    unlock k' nonce (lock k nonce text aad) aad' = none

/-- The key ring: the first key mints, every key accepts. -/
structure Ring (σ : Aead) where
  keys : List σ.Key
  ne_nil : keys ≠ []

/-- The key that mints. -/
def Ring.minting {σ : Aead} (ring : Ring σ) : σ.Key := ring.keys.head ring.ne_nil

/-- A fresh nonce. -/
abbrev Nonce (σ : Aead) := {bytes : Bytes // bytes.length = σ.nonceSize}

/-- A text of the database, which has no `NUL`. -/
abbrev DbText := {bytes : Bytes // 0 ∉ bytes}

/-- The text, padded with `NUL` to the next multiple of 32 bytes. -/
def pad (text : Bytes) : Bytes := text ++ List.replicate (32 - text.length % 32) 0

/-- `strings.TrimRight(text, "\x00")` -/
def trimRight (text : Bytes) : Bytes := text.rdropWhile (· = 0)

variable {σ : Aead}

/-- `sealCursorValue`: the nonce and the sealed text, which the token holds in base64. -/
def sealCursorValue (ring : Ring σ) (nonce : Nonce σ) (after aad : Bytes) : Bytes :=
  nonce.1 ++ σ.lock ring.minting nonce.1 (pad after) aad

/-- `unsealCursorValue`: the keys of the ring are tried in turn. -/
def unsealCursorValue (ring : Ring σ) (raw aad : Bytes) : Option Bytes :=
  ring.keys.findSome? fun k =>
    if raw.length < σ.nonceSize then none
    else (σ.unlock k (raw.take σ.nonceSize) (raw.drop σ.nonceSize) aad).map trimRight

theorem trimRight_pad (x : DbText) : trimRight (pad x.1) = x.1 := by
  have hpad : ∀ m, (x.1 ++ List.replicate m 0).rdropWhile (fun b : UInt8 => decide (b = 0)) = x.1 := by
    intro m
    induction m with
    | zero =>
      rw [List.replicate_zero, List.append_nil, List.rdropWhile_eq_self_iff]
      intro hne hlast
      have hmem := List.getLast_mem hne
      rw [of_decide_eq_true hlast] at hmem
      exact x.2 hmem
    | succ m ih =>
      rw [List.replicate_succ', ← List.append_assoc, List.rdropWhile_concat_pos _ _ _ (by simp), ih]
  exact hpad _

/-- A value that opens under some ring was sealed for the same additional data, and is what was
sealed. -/
theorem of_unseal_seal {ring ring' : Ring σ} {nonce : Nonce σ} {x : DbText} {aad aad' y : Bytes}
    (h : unsealCursorValue ring' (sealCursorValue ring nonce x.1 aad) aad' = some y) :
    aad = aad' ∧ y = x.1 := by
  have hsize := nonce.2
  rw [unsealCursorValue] at h
  obtain ⟨k, -, hk⟩ := List.exists_of_findSome?_eq_some h
  split at hk
  · cases hk
  · rw [sealCursorValue, List.take_left' hsize, List.drop_left' hsize] at hk
    by_cases hother : k ≠ ring.minting ∨ aad' ≠ aad
    · rw [σ.rejects _ _ _ _ _ _ hother] at hk
      cases hk
    · obtain ⟨hkey, haad⟩ := not_or.mp hother
      rw [not_not.mp hkey, not_not.mp haad, σ.unlock_lock, Option.map_some, trimRight_pad] at hk
      exact ⟨(not_not.mp haad).symm, (Option.some.inj hk).symm⟩

/-- **A sealed value opens under a ring with its key, for its additional data only.** -/
theorem unseal_seal_eq_some_iff {ring ring' : Ring σ} (hkept : ring.minting ∈ ring'.keys)
    (nonce : Nonce σ) (x : DbText) (aad aad' y : Bytes) :
    unsealCursorValue ring' (sealCursorValue ring nonce x.1 aad) aad' = some y ↔
      aad = aad' ∧ y = x.1 := by
  constructor
  · exact of_unseal_seal
  · rintro ⟨rfl, rfl⟩
    have hsize := nonce.2
    have hlen : ¬(sealCursorValue ring nonce x.1 aad).length < σ.nonceSize := by
      rw [sealCursorValue, List.length_append]
      omega
    -- the minting key opens it, so that some key does
    have hsome : (unsealCursorValue ring' (sealCursorValue ring nonce x.1 aad) aad).isSome := by
      rw [unsealCursorValue, List.findSome?_isSome_iff]
      refine ⟨ring.minting, hkept, ?_⟩
      rw [if_neg hlen, sealCursorValue, List.take_left' hsize, List.drop_left' hsize,
        σ.unlock_lock]
      rfl
    obtain ⟨z, hz⟩ := Option.isSome_iff_exists.mp hsome
    rw [hz, (of_unseal_seal hz).2]

/-! ## Searches -/

/-- The searches that are paged. -/
inductive Operation
  | subjects
  | objects
deriving DecidableEq, Repr

/-- A subject or a resource of a request, with its properties. -/
structure Entity where
  type : String
  id : String
  properties : Fields

/-- A search request as the handlers see it: the store of the route, the verified caller, and the body
with the subject that was resolved. -/
structure SearchRequest where
  op : Operation
  store : String
  actorType : String
  actorID : String
  subject : Entity
  actionName : String
  actionProperties : Fields
  resource : Entity
  context : Option Fields

/-- The block of an entity in the context. -/
def Entity.block (e : Entity) : Document :=
  .obj [("id".toList, .str e.id.toList), ("properties".toList, e.properties.document),
    ("type".toList, .str e.type.toList)]

/-- The block of the action in the context. -/
def SearchRequest.actionBlock (r : SearchRequest) : Document :=
  .obj [("name".toList, .str r.actionName.toList), ("properties".toList, r.actionProperties.document)]

/-- A block is added to a context that may be nil, if there are properties for it. -/
def addBlock (properties : Fields) (key : String) (block : Document) (context : Option Fields) :
    Option Fields :=
  if properties.rows = [] then context else some ((context.getD ∅).upsert (key, block))

/-- `requestContext` -/
def SearchRequest.requestContext (r : SearchRequest) : Option Fields :=
  addBlock r.actionProperties "action" r.actionBlock
    (addBlock r.resource.properties "resource" r.resource.block
      (addBlock r.subject.properties "subject" r.subject.block r.context))

/-- The arguments of `ListSubjects` or `ListResources` of the backend, with the caller of its
context. -/
inductive Call
  | listSubjects (store actorID subjectType action objectType objectID : String)
      (reqContext : Option Fields)
  | listResources (store actorID subjectType subjectID action objectType : String)
      (reqContext : Option Fields)

/-- The call of the backend that a handler makes. -/
def SearchRequest.call (r : SearchRequest) : Call :=
  match r.op with
  | .subjects => .listSubjects r.store r.actorID r.subject.type r.actionName r.resource.type
      r.resource.id r.requestContext
  | .objects => .listResources r.store r.actorID r.subject.type r.subject.id r.actionName
      r.resource.type r.requestContext

variable (d : Digest)

/-- The additional data in `ListSubjects` and `ListResources` of the backend, which seal. -/
def Call.aad : Call → Bytes
  | listSubjects store actorID subjectType action objectType objectID reqContext =>
    sealedCursorAAD (utf8 "subjects") (utf8 store) (utf8 actorID) (utf8 subjectType) (utf8 "")
      (utf8 action) (utf8 objectType) (utf8 objectID) (canonicalContextHash d reqContext)
  | listResources store actorID subjectType subjectID action objectType reqContext =>
    sealedCursorAAD (utf8 "objects") (utf8 store) (utf8 actorID) (utf8 subjectType) (utf8 subjectID)
      (utf8 action) (utf8 objectType) (utf8 "") (canonicalContextHash d reqContext)

/-- The additional data in `SearchSubject` and `SearchResource`, which open. -/
def SearchRequest.aad (r : SearchRequest) : Bytes :=
  match r.op with
  | .subjects => sealedCursorAAD (utf8 "subjects") (utf8 r.store) (utf8 r.actorID)
      (utf8 r.subject.type) (utf8 "") (utf8 r.actionName) (utf8 r.resource.type)
      (utf8 r.resource.id) (canonicalContextHash d r.requestContext)
  | .objects => sealedCursorAAD (utf8 "objects") (utf8 r.store) (utf8 r.actorID)
      (utf8 r.subject.type) (utf8 r.subject.id) (utf8 r.actionName) (utf8 r.resource.type) (utf8 "")
      (canonicalContextHash d r.requestContext)

/-- The fields that a cursor is bound to: a search for subjects has no subject id, one for objects no
object id, and of the context the entries count. -/
structure Bound where
  op : Operation
  store : String
  actorID : String
  subjectType : String
  subjectID : String
  action : String
  objectType : String
  objectID : String
  context : List (String × Document)

/-- The bound fields of a request. -/
def SearchRequest.bound (r : SearchRequest) : Bound where
  op := r.op
  store := r.store
  actorID := r.actorID
  subjectType := r.subject.type
  subjectID := match r.op with
    | .subjects => ""
    | .objects => r.subject.id
  action := r.actionName
  objectType := r.resource.type
  objectID := match r.op with
    | .subjects => r.resource.id
    | .objects => ""
  context := entries r.requestContext

/-- The state of a token with a sealed cursor: what is sealed, and the version of the format. -/
structure SealedState where
  s : Bytes
  v : ℤ
deriving DecidableEq, Repr

/-- `EncodeSealedPageAfter` in the call of a request: the cursor of the next page. -/
def sealCursor (ring : Ring σ) (nonce : Nonce σ) (r : SearchRequest) (after : Bytes) : SealedState :=
  ⟨sealCursorValue ring nonce after (r.call.aad d), 1⟩

/-- `decodePage` on a sealed cursor: the id to continue after. -/
def openCursor (ring : Ring σ) (r : SearchRequest) (state : SealedState) : Option Bytes :=
  if state.v ≠ 1 then none else unsealCursorValue ring state.s (r.aad d)

/-- **Both sides build the same additional data.** -/
theorem aad_call (r : SearchRequest) : r.call.aad d = r.aad d := by
  cases h : r.op <;> simp [SearchRequest.call, SearchRequest.aad, h, Call.aad]

/-- The additional data is a function of the bound fields, and an injective one. -/
theorem aad_inj {r r' : SearchRequest} : r.aad d = r'.aad d ↔ r.bound = r'.bound := by
  have hutf8 : ∀ {s t : String}, utf8 s = utf8 t ↔ s = t := Url.utf8_injective.eq_iff
  cases h : r.op <;> cases h' : r'.op <;>
    simp only [SearchRequest.aad, SearchRequest.bound, h, h', sealedCursorAAD_inj, hutf8,
      canonicalContextHash_inj, Bound.mk.injEq, true_and, reduceCtorEq, false_and, iff_false]
  · exact fun hand => absurd hand.1 (by decide)
  · exact fun hand => absurd hand.1 (by decide)

/-- **Sealed cursors are bound to their query.** A cursor that was sealed for one search with the last
id `x`, under a ring whose minting key another ring keeps, opens for a search there exactly if the two
agree in every bound field, and then yields `x`. -/
theorem openCursor_sealCursor_iff {ring ring' : Ring σ} (hkept : ring.minting ∈ ring'.keys)
    (nonce : Nonce σ) (r r' : SearchRequest) (x : DbText) (y : Bytes) :
    openCursor d ring' r' (sealCursor d ring nonce r x.1) = some y ↔
      r.bound = r'.bound ∧ y = x.1 := by
  have hversion : openCursor d ring' r' (sealCursor d ring nonce r x.1) =
      unsealCursorValue ring' (sealCursorValue ring nonce x.1 (r.call.aad d)) (r'.aad d) := by
    rw [openCursor, sealCursor, if_neg (by simp)]
  rw [hversion, unseal_seal_eq_some_iff hkept, aad_call, aad_inj]

/-! ## A rotation -/

/-- A model of the encryption that is not secret: the key and the additional data are written before
the text. -/
def openAead : Aead where
  Key := Bytes
  nonceSize := 12
  lock k _ text aad := netstring k ++ (netstring aad ++ text)
  unlock k _ sealed aad :=
    if (netstring k ++ netstring aad).isPrefixOf sealed then
      some (sealed.drop (netstring k ++ netstring aad).length)
    else none
  unlock_lock := by
    intro k _ text aad
    rw [← List.append_assoc, if_pos (by simp), List.drop_left' rfl]
  rejects := by
    intro k k' _ text aad aad' h
    rw [if_neg]
    intro hprefix
    obtain ⟨rest, hrest⟩ := List.isPrefixOf_iff_prefix.mp hprefix
    rw [List.append_assoc] at hrest
    obtain ⟨rfl, haad⟩ := netstring_append_inj hrest
    obtain ⟨rfl, -⟩ := netstring_append_inj haad
    simp at h

/-- A digest that is the text itself. -/
def textDigest : Digest where
  sum text := 0 :: utf8 (String.ofList text)
  injective := by
    intro a b h
    exact String.ofList_injective (Url.utf8_injective (List.cons.inj h).2)
  ne_nil text := List.cons_ne_nil 0 _

/-- A search for the documents that `alice` may view. -/
def aliceSearch : SearchRequest where
  op := .objects
  store := "demo"
  actorType := "user"
  actorID := "svc:1"
  subject := ⟨"user", "alice", ∅⟩
  actionName := "view"
  actionProperties := ∅
  resource := ⟨"doc", "", ∅⟩
  context := none

/-- A cursor sealed under the old key opens after the new one was put before it. -/
theorem openCursor_sealCursor_aliceSearch :
    openCursor textDigest (⟨[[2], [1]], by decide⟩ : Ring openAead) aliceSearch
      (sealCursor textDigest (⟨[[1]], by decide⟩ : Ring openAead)
        ⟨List.replicate 12 7, rfl⟩ aliceSearch (utf8 "d1")) = some (utf8 "d1") := by
  have htext : (0 : UInt8) ∉ utf8 "d1" := by decide +kernel
  exact (@openCursor_sealCursor_iff openAead textDigest (⟨[[1]], by decide⟩ : Ring openAead)
    (⟨[[2], [1]], by decide⟩ : Ring openAead) (List.mem_cons_of_mem _ List.mem_cons_self)
    ⟨List.replicate 12 7, rfl⟩ aliceSearch aliceSearch ⟨utf8 "d1", htext⟩ (utf8 "d1")).mpr ⟨rfl, rfl⟩

end PgAuthz.CursorSeal
