import PgAuthz.Opa.SealedCursors
import PgAuthz.Transition.Runs

/-!
# Positions of filtered pages

While hooks filter, the token of the next page is a sealed cursor, since it may name an id that they
hid. The handlers read every token by one decoder, which does not know of the filter: a token may also
hold an id in plain or an offset, as unfiltered pages have them, and what does not decode stands for
the beginning. So a page starts where the server said only if the token carries a sealed cursor.

## Main definitions

* `Token`: the tokens a caller may send
* `decodePage`, `startOf`: where a page starts
* `Event`, `serve`, `step`: filtered searches one after the other
* `Minted`: a page that starts where the server said
* `Sealed`, `Unforged`: tokens with a sealed cursor, and what AES-GCM promises of them

## Main results

* `minted_along`: along requests without a token or with a sealed cursor every page is minted
-/

namespace PgAuthz.CursorSeal

open Url (Bytes utf8)
open Transition

/-! ## Tokens -/

/-- The field `s` of a page state: empty, no base64, or the bytes it encodes. -/
inductive SealedText
  | absent
  | garbled
  | raw (bytes : Bytes)
deriving DecidableEq, Repr

/-- A token, by what its text encodes: a page state, `f1.` with a token and a freshness floor, or
nothing that can be read. -/
inductive Token
  | state (a : Bytes) (o : ℤ) (s : SealedText) (v : ℤ)
  | bound (c : Token) (r : String)
  | unreadable
deriving DecidableEq, Repr

/-- `unbindCursor` -/
def unbindCursor : Token → Token × String
  | .bound c r => (c, r)
  | t => (t, "")

/-- The sentinel of a sealed cursor that does not open, which is no id since it has a `NUL`. -/
def invalidCursorSentinel : Bytes := utf8 "\x00invalid-sealed-cursor"

variable {σ : Aead} (d : Digest)

/-- `decodePage` with the check of the handlers: the offset and the id to continue after, unless the
request is refused. -/
def decodePage (ring : Ring σ) (r : SearchRequest) (token : Option Token) : Option (ℤ × Bytes) :=
  let page : ℤ × Bytes := match token with
    | some (.state a o s v) =>
      match s with
      | .absent => (o, a)
      | .garbled => (0, invalidCursorSentinel)
      | .raw bytes => (0, (openCursor d ring r ⟨bytes, v⟩).getD invalidCursorSentinel)
    | _ => (0, [])
  if page.2 = invalidCursorSentinel then none else some page

/-- Where a listing starts. -/
inductive Start
  | offset (n : ℤ)
  | after (id : Bytes)
deriving DecidableEq, Repr

/-- `pageInput`: an id to continue after has precedence over the offset. -/
def startOf (page : ℤ × Bytes) : Start := if page.2 = [] then .offset page.1 else .after page.2

/-! ## Filtered searches -/

/-- A search while hooks filter: the request with its token and its page size, the freshness floor of
its headers and which floors are met, and what the engine lists, which ids the hooks deny, and the
bound on candidates at that time. The ring may have been rotated. -/
structure Event (σ : Aead) where
  request : SearchRequest
  token : Option Token
  limit : ℕ
  limit_pos : 0 < limit
  header : String
  fresh : String → Bool
  ring : Ring σ
  nonce : Nonce σ
  listing : Start → ℤ → Option (List DbText)
  denied : DbText → Bool
  cap : ℕ

/-- `pageFreshness`, behind the guard of the header: the token without its floor, unless a floor is
not met. -/
def Event.unbound (e : Event σ) : Option (Option Token) :=
  if e.header ≠ "" ∧ !e.fresh e.header then none
  else match e.token with
    | none => some none
    | some t =>
      let (cursor, freshTok) := unbindCursor t
      if freshTok = "" ∨ e.fresh freshTok then some (some cursor) else none

/-- A filtered page: the ids, and the last id that was read if there are more. -/
structure FilteredPage where
  ids : List DbText
  cursor : Option DbText

/-- `_filter_page` of the policies, on a page with one id more than it holds. -/
def Event.filterPage (e : Event σ) (raw : List DbText) : Option FilteredPage :=
  if e.cap < raw.length then none
  else
    let consumed := raw.take e.limit
    some
      { ids := consumed.filter fun id => !e.denied id
        cursor := if e.limit + 1 ≤ raw.length then some (consumed.getLast?.getD ⟨[], by simp⟩)
          else none }

/-- A page that was served, with the token that was read, and a cursor that was sealed. -/
structure Served where
  request : SearchRequest
  token : Option Token
  start : Start

/-- A cursor that was sealed. -/
structure Issued where
  request : SearchRequest
  id : DbText
  raw : Bytes

/-- `SearchSubject` and `SearchResource` while hooks filter: where the page starts, and the page. None
if the request is refused or fails. -/
def serve (e : Event σ) : Option (Served × FilteredPage) := do
  let token ← e.unbound
  let page ← decodePage d e.ring e.request token
  let raw ← e.listing (startOf page) (e.limit + 1)
  let filtered ← e.filterPage raw
  return (⟨e.request, token, startOf page⟩, filtered)

/-- What the server has served and sealed. -/
structure State where
  served : List Served
  issued : List Issued

/-- Nothing was served. -/
def State.init : State := ⟨[], []⟩

/-- The cursor of the next page, as it is sealed. -/
def Event.issue (e : Event σ) (x : DbText) : Issued :=
  ⟨e.request, x, (sealCursor d e.ring e.nonce e.request x.1).s⟩

/-- A search, which leaves the state as it is when it is refused. -/
def step (s : State) (e : Event σ) : Option State :=
  match serve d e with
  | none => some s
  | some (page, filtered) =>
    some ⟨page :: s.served, (filtered.cursor.map (e.issue d)).toList ++ s.issued⟩

/-! ## Minted positions -/

/-- **The page starts where the server said**: at the beginning if no token was sent, and else directly
after an id that the server sealed in the token, for a search with the same bound fields. -/
def Minted (s : State) (page : Served) : Prop :=
  (page.token = none ∧ page.start = .offset 0) ∨
    ∃ i ∈ s.issued, (∃ a o v, page.token = some (.state a o (.raw i.raw) v)) ∧
      i.request.bound = page.request.bound ∧ page.start = startOf (0, i.id.1)

/-- The token carries a sealed cursor. -/
def Token.Sealed : Token → Prop
  | .state _ _ s _ => s ≠ .absent
  | _ => False

/-- There is no token, or below its freshness floor it carries a sealed cursor. -/
def CarriesSealed (e : Event σ) : Prop := ∀ t, e.token = some t → (unbindCursor t).1.Sealed

/-- What AES-GCM promises: a caller has no sealed bytes that open but those of the server. -/
def Unforged (s : State) (e : Event σ) : Prop :=
  ∀ a o bytes v y, e.unbound = some (some (.state a o (.raw bytes) v)) →
    openCursor d e.ring e.request ⟨bytes, v⟩ = some y → ∃ i ∈ s.issued, i.raw = bytes

/-- Every cursor was sealed for its search, and every page is minted. -/
structure Inv (σ : Aead) (d : Digest) (s : State) : Prop where
  issued : ∀ i ∈ s.issued, ∃ (ring : Ring σ) (nonce : Nonce σ),
    i.raw = sealCursorValue ring nonce i.id.1 (i.request.aad d)
  served : ∀ page ∈ s.served, Minted s page

variable {d}

theorem Minted.mono {s s' : State} {page : Served} (h : Minted s page)
    (hsub : ∀ i ∈ s.issued, i ∈ s'.issued) : Minted s' page := by
  rcases h with h | ⟨i, hi, h⟩
  · exact .inl h
  · exact .inr ⟨i, hsub i hi, h⟩

/-- A token below its floor is the token that was sent, without the floor. -/
theorem token_of_unbound {e : Event σ} {token : Option Token} (h : e.unbound = some token) :
    token = e.token.map fun t => (unbindCursor t).1 := by
  rw [Event.unbound] at h
  split at h
  · cases h
  · cases ht : e.token with
    | none =>
      rw [ht] at h
      exact (Option.some.inj h).symm
    | some t =>
      rw [ht] at h
      dsimp only at h
      split at h
      · exact (Option.some.inj h).symm
      · cases h

theorem decodePage_none (ring : Ring σ) (r : SearchRequest) :
    decodePage d ring r none = some (0, []) := by
  have hid : ([] : Bytes) ≠ invalidCursorSentinel := by decide +kernel
  simp only [decodePage, if_neg hid]

/-- A token with a sealed cursor is read only if the cursor opens. -/
theorem open_of_decodePage {ring : Ring σ} {r : SearchRequest} {t : Token} {page : ℤ × Bytes}
    (hsealed : t.Sealed) (h : decodePage d ring r (some t) = some page) :
    ∃ a o bytes v y, t = .state a o (.raw bytes) v ∧ openCursor d ring r ⟨bytes, v⟩ = some y ∧
      page = (0, y) := by
  cases t with
  | bound c f => exact absurd hsealed id
  | unreadable => exact absurd hsealed id
  | state a o s v =>
    cases s with
    | absent => exact absurd rfl hsealed
    | garbled =>
      rw [decodePage] at h
      dsimp only at h
      rw [if_pos rfl] at h
      cases h
    | raw bytes =>
      rw [decodePage] at h
      dsimp only at h
      cases hopen : openCursor d ring r ⟨bytes, v⟩ with
      | none =>
        -- what does not open is the sentinel, which the handlers refuse
        rw [hopen, Option.getD_none, if_pos rfl] at h
        cases h
      | some y =>
        rw [hopen, Option.getD_some] at h
        split at h
        · cases h
        · exact ⟨a, o, bytes, v, y, rfl, hopen, (Option.some.inj h).symm⟩

/-- What a served page went through. -/
theorem serve_eq_some {e : Event σ} {page : Served} {filtered : FilteredPage}
    (h : serve d e = some (page, filtered)) :
    ∃ token at', e.unbound = some token ∧ decodePage d e.ring e.request token = some at' ∧
      page = ⟨e.request, token, startOf at'⟩ := by
  simp only [serve, Option.bind_eq_bind, Option.bind_eq_some_iff, Option.pure_def,
    Option.some.injEq, Prod.mk.injEq] at h
  obtain ⟨token, htoken, at', hat, _, _, _, _, hpage, _⟩ := h
  exact ⟨token, at', htoken, hat, hpage.symm⟩

/-- **A page that is served without a token or for a sealed cursor is minted.** -/
theorem minted_of_serve {s : State} {e : Event σ} {page : Served} {filtered : FilteredPage}
    (hinv : Inv σ d s) (hcarries : CarriesSealed e) (hforged : Unforged d s e)
    (h : serve d e = some (page, filtered)) : Minted s page := by
  obtain ⟨token, at', htoken, hat, rfl⟩ := serve_eq_some h
  cases token with
  | none =>
    rw [decodePage_none] at hat
    cases hat
    exact .inl ⟨rfl, rfl⟩
  | some t =>
    have hsent := token_of_unbound htoken
    obtain ⟨sent, he, rfl⟩ := Option.map_eq_some_iff.mp hsent.symm
    obtain ⟨a, o, bytes, v, y, ht, hopen, rfl⟩ := open_of_decodePage (hcarries sent he) hat
    rw [ht] at htoken
    obtain ⟨i, hi, rfl⟩ := hforged a o bytes v y htoken hopen
    obtain ⟨ring, nonce, hraw⟩ := hinv.issued i hi
    have hversion : v = 1 := by
      by_contra hv
      rw [openCursor, if_pos hv] at hopen
      cases hopen
    -- it opened for this search, so it was sealed for its bound fields
    rw [openCursor, if_neg (by simp [hversion]), hraw] at hopen
    obtain ⟨haad, rfl⟩ := of_unseal_seal hopen
    exact .inr ⟨i, hi, ⟨a, o, v, by rw [ht]⟩, (aad_inj d).mp haad, rfl⟩

/-- A step of a search without a token or with a sealed cursor. -/
theorem Inv.step {s s' : State} {e : Event σ} (hinv : Inv σ d s)
    (hok : CarriesSealed e ∧ Unforged d s e) (h : step d s e = some s') : Inv σ d s' := by
  rw [CursorSeal.step] at h
  cases hserve : serve d e with
  | none =>
    rw [hserve] at h
    cases h
    exact hinv
  | some result =>
    obtain ⟨page, filtered⟩ := result
    rw [hserve] at h
    cases h
    have hsub : ∀ i ∈ s.issued, i ∈ (filtered.cursor.map (e.issue d)).toList ++ s.issued :=
      fun i hi => List.mem_append_right _ hi
    constructor
    · intro i hi
      rcases List.mem_append.mp hi with hnew | hold
      · obtain ⟨x, -, rfl⟩ := Option.map_eq_some_iff.mp (Option.mem_toList.mp hnew)
        refine ⟨e.ring, e.nonce, ?_⟩
        rw [Event.issue, sealCursor, aad_call]
      · exact hinv.issued i hold
    · intro shown hshown
      rcases List.mem_cons.mp hshown with rfl | hold
      · exact (minted_of_serve hinv hok.1 hok.2 hserve).mono hsub
      · exact (hinv.served shown hold).mono hsub

/-- **Positions are minted while every token carries a sealed cursor.** In a run of filtered searches
each of which has no token or one with a sealed cursor, every page that was served starts at the
beginning without a token, or directly after an id that the server sealed in the token for the same
bound fields. -/
theorem minted_along (d : Digest) {es : List (Event σ)} {s : State}
    (hok : Along (step d) (fun s e => CarriesSealed e ∧ Unforged d s e) State.init es)
    (hrun : run (step d) State.init es = some s) : ∀ page ∈ s.served, Minted s page := by
  have hinit : Inv σ d State.init := ⟨nofun, nofun⟩
  have hinv : Inv σ d s := hok.run (fun _ _ _ hinv hok h => hinv.step hok h) hinit hrun
  exact hinv.served

/-! ## Two pages, and a chosen position -/

/-- A document id. -/
def docId (id : String) (h : 0 ∉ utf8 id := by decide +kernel) : DbText := ⟨utf8 id, h⟩

/-- A search of `alice` for pages of one document among three, where `doc:b` is hidden. -/
def aliceEvent (token : Option Token) : Event openAead where
  request := aliceSearch
  token := token
  limit := 1
  limit_pos := Nat.one_pos
  header := ""
  fresh := fun _ => true
  ring := ⟨[[1]], by decide⟩
  nonce := ⟨List.replicate 12 7, rfl⟩
  listing := fun start _ => match start with
    | .offset _ => some [docId "b", docId "c"]
    | .after _ => some [docId "c"]
  denied := fun id => id.1 == utf8 "b"
  cap := 10

/-- The cursor that the server seals after the hidden document. -/
def sealedAfterB : Bytes :=
  (sealCursor textDigest (aliceEvent none).ring (aliceEvent none).nonce aliceSearch (utf8 "b")).s

/-- The token with the sealed cursor. -/
def sealedToken : Token := .state [] 0 (.raw sealedAfterB) 1

/-- The first page, which is empty, and the page after it. -/
theorem minted_along_aliceEvent : ∃ s, run (step textDigest) State.init
    [aliceEvent none, aliceEvent (some sealedToken)] = some s ∧ s.served.length = 2 ∧
      ∀ page ∈ s.served, Minted s page := by
  have hfirst : (step textDigest State.init (aliceEvent none)).map
      (fun s => s.issued.map Issued.raw) = some [sealedAfterB] := by decide +kernel
  have hlength : (run (step textDigest) State.init
      [aliceEvent none, aliceEvent (some sealedToken)]).map (fun s => s.served.length) = some 2 := by
    decide +kernel
  obtain ⟨s, hrun, hlength⟩ := Option.map_eq_some_iff.mp hlength
  have hok : Along (step textDigest) (fun s e => CarriesSealed e ∧ Unforged textDigest s e) State.init
      [aliceEvent none, aliceEvent (some sealedToken)] := by
    refine ⟨⟨nofun, nofun⟩, fun s₁ h₁ => ?_⟩
    rw [h₁] at hfirst
    refine ⟨⟨?_, ?_⟩, fun _ _ => trivial⟩
    · rintro t ⟨⟩
      exact nofun
    · intro a o bytes v y htoken _
      -- the sealed bytes of the token are those of the first page
      cases htoken
      have hraw : s₁.issued.map Issued.raw = [sealedAfterB] := Option.some.inj hfirst
      exact List.mem_map.mp (hraw ▸ List.mem_singleton_self _)
  exact ⟨s, hrun, hlength, minted_along textDigest hok hrun⟩

/-- **A plain id is continued after, though nothing was sealed.** -/
theorem plainToken_not_minted : ∃ s, run (step textDigest) State.init
    [aliceEvent (some (.state (utf8 "a") 0 .absent 0))] = some s ∧ s.issued = [] ∧
      ∃ page ∈ s.served, page.start = .after (utf8 "a") ∧ ¬Minted s page := by
  have hserved : (run (step textDigest) State.init
      [aliceEvent (some (.state (utf8 "a") 0 .absent 0))]).map
        (fun s => (s.issued.length, s.served.map fun page => (page.token, page.start))) =
      some (0, [(some (.state (utf8 "a") 0 .absent 0), .after (utf8 "a"))]) := by
    decide +kernel
  obtain ⟨s, hrun, hserved⟩ := Option.map_eq_some_iff.mp hserved
  obtain ⟨hissued, hpages⟩ := Prod.mk.inj hserved
  have hissued : s.issued = [] := List.length_eq_zero_iff.mp hissued
  obtain ⟨page, hpage, hstart⟩ := List.mem_map.mp (hpages ▸ List.mem_singleton_self _)
  obtain ⟨htoken, hstart⟩ := Prod.mk.inj hstart
  refine ⟨s, hrun, hissued, page, hpage, hstart, ?_⟩
  rintro (⟨hnone, -⟩ | ⟨i, hi, -⟩)
  · rw [htoken] at hnone
    cases hnone
  · rw [hissued] at hi
    cases hi

end PgAuthz.CursorSeal
