import Mathlib.Data.List.DropRight
import Mathlib.Data.List.Sort
import Mathlib.Tactic.IntervalCases
import PgAuthz.Feed.Tokens
import PgAuthz.Opa.Direct
import PgAuthz.Opa.Enumeration

/-!
# Searches page by page

A client searches with a page size and passes the `next_token` of each answer back. The token carries
the last id that was consumed, in plain or sealed, and the freshness floor of the search if it has one.
Behind the handler the direct backend answers, or the policies, which ask the direct backend for one id
more and may filter what they get.

A token without an id means the beginning. So does the token of a page that ends with the empty id, and
a search that gets it starts again.

## Main definitions

* `PageToken`, `PageText`, `PageState`: the page of a request, its token and what the token holds
* `decodePage`, `encodePageAfter`, `encodeSealedPageAfter`, `bindCursor`, `unbindCursor`, `pageFreshness`
* `Listing`: what the engine lists at one state
* `Path`: the direct backend, or the policies with what they filter
* `Search.handle`: the search handler
* `Search.Lossless`: the requests end and read the listed ids that are not denied, each once

## Main results

* `lossless_iff`: when a search is lossless
-/

namespace PgAuthz.Opa

/-! ## Tokens -/

/-- The page of a request: its token if it has one, and its size under the new and the old name. -/
structure PageToken (τ : Type) where
  token : Option τ
  limit : ℤ
  size : ℤ

/-- `PageToken.size`: the limit, or else the old size. -/
def PageToken.requested {τ : Type} (p : PageToken τ) : ℤ :=
  if p.limit > 0 then p.limit else p.size

/-- `pageState`: the last id of the previous page, the old offset, a sealed id and the format of it. -/
structure PageState where
  a : String := ""
  o : ℤ := 0
  s : String := ""
  v : ℤ := 0
deriving DecidableEq

/--
A token, by what its text encodes: a page state, or `f1.` with a token and a freshness token. The text of
a page state has no dot, which tells the two apart.
-/
inductive PageText
  | state (st : PageState)
  | bound (c : PageText) (r : String)
deriving DecidableEq

/-- `EncodePageAfter`. -/
def encodePageAfter (after : String) : PageText :=
  .state { a := after }

/-- The sealing of texts under the key of the server, in base64. Each sealing takes a nonce. -/
structure Sealing where
  Nonce : Type
  lock : Nonce → String → String → String
  unlock : String → String → Option String
  unlock_lock : ∀ nonce text aad, unlock (lock nonce text aad) aad = some text
  lock_ne_empty : ∀ nonce text aad, lock nonce text aad ≠ ""

/-- The text, padded with `NUL` to the next multiple of 32 bytes. -/
def padded (after : String) : String :=
  after ++ String.ofList (List.replicate (32 - after.utf8ByteSize % 32) '\x00')

/-- The text without the `NUL` at its end. -/
def trimRight (text : String) : String :=
  String.ofList (text.toList.rdropWhile (· = '\x00'))

/-- `sealCursorValue`. -/
def Sealing.sealCursorValue (se : Sealing) (nonce : se.Nonce) (aad after : String) : String :=
  se.lock nonce (padded after) aad

/-- `unsealCursorValue`. -/
def Sealing.unsealCursorValue (se : Sealing) (aad text : String) : Option String :=
  (se.unlock text aad).map trimRight

/-- The token of a cursor: `EncodePageAfter` of an id, or the page state of a sealed one. -/
def Cursor.text : Cursor → PageText
  | .plain after => encodePageAfter after
  | .locked token => .state { s := token, v := 1 }

/-- No id, since it contains a `NUL`. -/
def invalidCursorSentinel : String := "\x00invalid-sealed-cursor"

/-- The size of a page: 100 unless a positive one is given. -/
def pageSize (size : ℤ) : {n : ℤ // 0 < n} :=
  if h : 0 < size then ⟨size, h⟩ else ⟨100, by decide⟩

/-- `decodePage`. A token that does not decode holds no state. -/
def decodePage (se : Sealing) (p : PageToken PageText) (aad : String) : PageRequest :=
  let size := pageSize p.requested
  let state : PageState := match p.token with
    | some (.state st) => st
    | _ => {}
  if state.s ≠ "" then
    if state.v ≠ 1 then ⟨size, 0, invalidCursorSentinel, size.2⟩
    else match se.unsealCursorValue aad state.s with
      | none => ⟨size, 0, invalidCursorSentinel, size.2⟩
      | some after => ⟨size, 0, after, size.2⟩
  else ⟨size, state.o, state.a, size.2⟩

/-- `bindCursor`. -/
def bindCursor (cursor : PageText) (freshTok : String) : PageText :=
  if freshTok = "" then cursor else .bound cursor freshTok

/-- `unbindCursor`: the token without its freshness floor, and the floor. -/
def unbindCursor : PageText → PageText × String
  | .bound c r => (c, r)
  | t => (t, "")

/-! ## What the engine lists -/

/-- The ids that the engine lists at one state, in the order of the database. They are texts of the
database, which hold no `NUL`. -/
structure Listing where
  lt : String → String → Bool
  ids : List String
  irrefl : ∀ x, lt x x = false
  asymm : ∀ x y, lt x y → lt y x = false
  sorted : ids.Pairwise fun x y => lt x y
  no_nul : ∀ id ∈ ids, '\x00' ∉ id.toList

/-- The keyset page: the ids after the cursor, or all of them after an offset. -/
def Listing.rows (l : Listing) : Start → Scan
  | .offset n => ⟨l.ids.drop n, none⟩
  | .after id => ⟨l.ids.filter fun x => l.lt id x, none⟩

/-- The ids after the cursor `a`. The empty cursor means the beginning. -/
def Listing.after (l : Listing) (a : String) : List String :=
  if a = "" then l.ids else l.ids.filter fun x => l.lt a x

/-! ## The backends -/

/-- Who answers a search: the direct backend, or the policies, which put the ids past their hooks. -/
inductive Path
  | direct
  | policies (e : Env) (i : Input) (denied : String → Bool)

/-- `int` arithmetic. -/
def goInt (n : ℤ) : ℤ := n.bmod (2 ^ 64)

/-- The page that the policies are asked for. Its limit is an `int`. -/
def policyPage (page : PageRequest) : Page :=
  { pageInput page with limit := goInt (pageInput page).limit }

/-- The ids of a reply with the token of the next page. -/
def Reply.paged : Reply → List String × Option Cursor
  | .ids l next => (l, next)
  | _ => ([], none)

/-- The page that the native handler lists for the policies, none if it fails. -/
def nativePage (en : Engine) (s : String) (l : Listing) (w : Window) : Option (List String) :=
  ((en.listPage s l.rows (pageReq w)).toOption).map Reply.listed

/-- The page of a search, none if it fails. -/
def Path.page (en : Engine) (s : String) (l : Listing) (b : Backend) (page : PageRequest) :
    Path → Option (List String × Option Cursor)
  | .direct => ((en.listPage s l.rows (some page)).toOption).map Reply.paged
  | .policies e i denied =>
    let raw := (window (policyPage page)).bind (nativePage en s l)
    ((b.decodePage page.limit (raw.map (filterPage e i denied (policyPage page)))).toOption).map
      Reply.paged

/-- The object search of the policies, where it is not refused and the engine answers it. -/
theorem accessibleObjectsPage_eq {e : Env} {i : Input} {p : Page} {raw : Option (List String)}
    (hmode : enumerationRefused e { i with page := some p } = false)
    (hsubject : subjectValid e { i with page := some p } = true)
    (hgraph : graphObjectsPage e { i with page := some p } p = raw) :
    accessibleObjectsPage e { i with page := some p } =
      raw.map (filterPage e i (candidateObjectDenied e i) p) := by
  rw [accessibleObjectsPage, hmode, hsubject, if_neg (by decide), if_pos rfl]
  exact congrArg (Option.map _) hgraph

/-- The subject search of the policies, where it is not refused and the engine answers it. -/
theorem accessibleSubjectsPage_eq {e : Env} {i : Input} {p : Page} {raw : Option (List String)}
    (hmode : enumerationRefused e { i with page := some p } = false)
    (hsubject : subjectSearchValid e { i with page := some p } = true)
    (hgraph : graphSubjectsPage e { i with page := some p } p = raw) :
    accessibleSubjectsPage e { i with page := some p } =
      raw.map (filterPage e i (candidateSubjectDenied e i) p) := by
  rw [accessibleSubjectsPage, hmode, hsubject, if_neg (by decide), if_pos rfl]
  exact congrArg (Option.map _) hgraph

/-! ## The handler -/

/--
A search at one state of the database. The requests may name a freshness floor in their headers, and the
server has replayed up to it. The additional data of sealed ids names the query, which stays the same.
-/
structure Search where
  engine : Engine
  store : String
  listing : Listing
  path : Path
  sealing : Sealing
  nonce : ℕ → sealing.Nonce
  aad : String
  header : ℕ → String
  fresh : String → Bool
  store_mem : store ∈ engine.stores.names
  met : ∀ k, header k ≠ "" → fresh (header k)

namespace Search

variable (se : Search)

/-- `pageFreshness`, behind the guard of the header: the token without its floor, and the floor that the
next token is bound to. None if a floor is not met. -/
def pageFreshness (k : ℕ) (token : Option PageText) : Option (Option PageText × String) :=
  if se.header k ≠ "" ∧ !se.fresh (se.header k) then none
  else match token with
    | none => some (none, se.header k)
    | some t =>
      let (cursor, freshTok) := unbindCursor t
      if freshTok = "" then some (some cursor, se.header k)
      else if se.fresh freshTok then some (some cursor, freshTok) else none

/-- The backend at the `k`-th request, with a fresh nonce. -/
def backend (k : ℕ) : Backend where
  forwardToken := false
  deploymentEnv := ""
  encodeSealed := fun after => some (se.sealing.sealCursorValue (se.nonce k) se.aad after)

/-- `SearchResource`, `SearchSubject`: the results and the `next_token` of the `k`-th request, none if it
fails. -/
def handle (k : ℕ) (p : PageToken PageText) : Option (List String × Option PageText) := do
  let (token, freshTok) ← se.pageFreshness k p.token
  let page := decodePage se.sealing { p with token := token } se.aad
  if page.after = invalidCursorSentinel then none
  else
    let (ids, next) ← se.path.page se.engine se.store se.listing (se.backend k) page
    return (ids, next.map fun c => bindCursor c.text freshTok)

/-- The answer to the `k`-th request, which asks for pages of the same size and passes a token back. -/
def respond (limit size : ℤ) (k : ℕ) (token : Option PageText) :
    Option (List String × Option (Option PageText)) :=
  (se.handle k ⟨token, limit, size⟩).map fun r => (r.1, r.2.map some)

/-- The listed ids that hooks do not deny. Hooks deny ids where they filter. -/
def allowed : List String :=
  match se.path with
  | .direct => se.listing.ids
  | .policies e i denied =>
    if (activeCap e i).isSome then se.listing.ids.filter fun id => denied id = false
    else se.listing.ids

/-- **No loss**: the search without a token, continued with each `next_token`, is answered, ends, and reads
the listed ids that are not denied, in order and once. -/
def Lossless (limit size : ℤ) : Prop :=
  Feed.Ends (se.respond limit size) 0 none se.allowed

/-- A page of `n` ids that is not the last one ends with the empty id. -/
def Stuck (n : ℕ) : Prop :=
  ∃ j, se.listing.ids[n * (j + 1) - 1]? = some "" ∧ n * (j + 1) < se.listing.ids.length

/--
When a search with pages of `n` ids is lossless: its limit is an `int` of the database also with the ids
that are asked for on the way, the candidates of a page with one more are within the bound of the filter,
and no page that is not the last one ends with the empty id.
-/
def Holds (n : ℕ) : Prop :=
  match se.path with
  | .direct => (n + 1 : ℤ) ≤ maxInt ∧ ¬ se.Stuck n
  | .policies e i _ =>
    match activeCap e i with
    | some cap => (n < cap ∨ se.listing.ids.length ≤ cap) ∧ ¬ se.Stuck n
    | none =>
      if (n + 2 : ℤ) ≤ maxInt then ¬ se.Stuck n
      -- the callback fails, and the policies list nothing
      else if (n + 1 : ℤ) < 2 ^ 63 then se.listing.ids = []
      -- the limit wraps around, and the callback answers with its first page
      else se.listing.ids.length ≤ 100

end Search

/-- The page size of a request, an `int` of at least one. -/
structure PageSize where
  limit : ℤ
  size : ℤ
  pos : 1 ≤ (PageToken.requested ⟨(none : Option PageText), limit, size⟩)
  int : (PageToken.requested ⟨(none : Option PageText), limit, size⟩) < 2 ^ 63

/-- The number of ids on a page. -/
def PageSize.ids (z : PageSize) : ℕ :=
  (PageToken.requested ⟨(none : Option PageText), z.limit, z.size⟩).toNat

/-! ## Sealed ids -/

theorem trimRight_padded {a : String} (h : '\x00' ∉ a.toList) : trimRight (padded a) = a := by
  have hrev : a.toList.rdropWhile (fun c => decide (c = '\x00')) = a.toList := by
    rw [List.rdropWhile_eq_self_iff]
    intro hne hlast
    exact h ((of_decide_eq_true hlast) ▸ List.getLast_mem hne)
  have hpad : ∀ m, (a.toList ++ List.replicate m '\x00').rdropWhile
      (fun c => decide (c = '\x00')) = a.toList := by
    intro m
    induction m with
    | zero => simpa using hrev
    | succ m ih => rw [List.replicate_succ', ← List.append_assoc, List.rdropWhile_concat_pos _ _ _ (by simp), ih]
  rw [trimRight, padded, String.toList_append, String.toList_ofList, hpad, String.ofList_toList]

theorem Sealing.unseal_seal (se : Sealing) (nonce : se.Nonce) (aad : String) {a : String}
    (h : '\x00' ∉ a.toList) :
    se.unsealCursorValue aad (se.sealCursorValue nonce aad a) = some a := by
  rw [unsealCursorValue, sealCursorValue, se.unlock_lock, Option.map_some, trimRight_padded h]

theorem unbindCursor_bindCursor (c : Cursor) (r : String) :
    unbindCursor (bindCursor c.text r) = (c.text, r) := by
  by_cases hr : r = ""
  · subst hr
    cases c <;> rfl
  · rw [bindCursor, if_neg hr, unbindCursor]

theorem Listing.ne_sentinel (l : Listing) {a : String} (ha : a = "" ∨ a ∈ l.ids) :
    a ≠ invalidCursorSentinel ∧ '\x00' ∉ a.toList := by
  have hno : '\x00' ∉ a.toList := by
    rcases ha with rfl | ha
    · decide
    · exact l.no_nul a ha
  refine ⟨?_, hno⟩
  rintro rfl
  exact hno (by decide)

/-! ## Requests and their cursors -/

/-- The request for the page after `a`. -/
def PageSize.request (z : PageSize) (a : String) : PageRequest :=
  ⟨(PageToken.requested ⟨(none : Option PageText), z.limit, z.size⟩), 0, a, by have := z.pos; omega⟩

theorem PageSize.ids_pos (z : PageSize) : 0 < z.ids := by
  have := z.pos
  rw [ids]
  omega

theorem PageSize.request_limit (z : PageSize) (a : String) : (z.request a).limit = z.ids := by
  have hpos : 0 < (z.request a).limit := (z.request a).limit_pos
  exact (Int.toNat_of_nonneg hpos.le).symm

theorem PageSize.toNat_request_limit (z : PageSize) (a : String) :
    ((z.request a).limit + 1).toNat = z.ids + 1 := by
  rw [z.request_limit]
  omega

@[simp]
theorem PageSize.request_after (z : PageSize) (a : String) : (z.request a).after = a := rfl

/-- The size is decoded from the request, whatever its token is. -/
theorem PageSize.decoded (z : PageSize) (t : Option PageText) :
    ↑(pageSize (PageToken.requested ⟨t, z.limit, z.size⟩)) = (z.request "").limit := by
  have hpos : 0 < (PageToken.requested ⟨t, z.limit, z.size⟩) := by
    have : 1 ≤ (PageToken.requested ⟨t, z.limit, z.size⟩) := z.pos
    omega
  rw [pageSize, dif_pos hpos]
  rfl

theorem PageSize.ids_lt (z : PageSize) : (z.ids : ℤ) < 2 ^ 63 := by
  have h : (PageToken.requested ⟨(none : Option PageText), z.limit, z.size⟩) = z.ids :=
    z.request_limit ""
  exact h ▸ z.int

namespace Search

variable (se : Search)

/-- The cursor carries the id `a`, in plain or sealed. -/
def Carries (c : Cursor) (a : String) : Prop :=
  c = .plain a ∨ ∃ nonce, c = .locked (se.sealing.sealCursorValue nonce se.aad a)

/-- The token asks for the page after `a`. -/
inductive Points : Option PageText → String → Prop
  | start : Points none ""
  | next {c : Cursor} {r a : String} (hc : se.Carries c a) (hr : r = "" ∨ se.fresh r) :
      Points (some (bindCursor c.text r)) a

variable {se}

theorem decodePage_none (z : PageSize) :
    decodePage se.sealing ⟨none, z.limit, z.size⟩ se.aad = z.request "" := by
  simp only [decodePage, ne_eq, not_true_eq_false, if_false, z.decoded]
  rfl

/-- A cursor decodes to the id it carries. -/
theorem decodePage_text (z : PageSize) {c : Cursor} {a : String} (hc : se.Carries c a)
    (ha : '\x00' ∉ a.toList) :
    decodePage se.sealing ⟨some c.text, z.limit, z.size⟩ se.aad = z.request a := by
  rcases hc with rfl | ⟨nonce, rfl⟩
  · simp only [decodePage, Cursor.text, encodePageAfter, ne_eq, not_true_eq_false, if_false, z.decoded]
    rfl
  · have hne : se.sealing.sealCursorValue nonce se.aad a ≠ "" := se.sealing.lock_ne_empty _ _ _
    simp only [decodePage, Cursor.text, ne_eq, hne, not_false_eq_true, if_true, not_true_eq_false,
      if_false, se.sealing.unseal_seal nonce se.aad ha, z.decoded]
    rfl

/-- **A request gets the page after the id of its token**, and the floor of the next token is met. -/
theorem handle_of_points (z : PageSize) (k : ℕ) {token : Option PageText} {a : String}
    (h : se.Points token a) (ha : a = "" ∨ a ∈ se.listing.ids) :
    ∃ r, (r = "" ∨ se.fresh r) ∧ se.handle k ⟨token, z.limit, z.size⟩ =
      (se.path.page se.engine se.store se.listing (se.backend k) (z.request a)).map
        fun p => (p.1, p.2.map fun c => bindCursor c.text r) := by
  obtain ⟨hsentinel, hnul⟩ := se.listing.ne_sentinel ha
  have hguard : ¬ (se.header k ≠ "" ∧ !se.fresh (se.header k)) := by
    rintro ⟨hne, hfresh⟩
    simp [se.met k hne] at hfresh
  have hheader : se.header k = "" ∨ se.fresh (se.header k) := by
    by_cases hne : se.header k = ""
    · exact .inl hne
    · exact .inr (se.met k hne)
  cases h with
  | start =>
    refine ⟨se.header k, hheader, ?_⟩
    have hfloor : se.pageFreshness k none = some (none, se.header k) := by
      rw [pageFreshness, if_neg hguard]
    simp only [handle, hfloor, Option.bind_eq_bind, Option.bind_some, decodePage_none]
    rw [PageSize.request_after, if_neg hsentinel]
    cases se.path.page se.engine se.store se.listing (se.backend k) (z.request "") <;> rfl
  | @next c r _ hc hr =>
    -- the floor of the token, or else the one of the header
    refine ⟨if r = "" then se.header k else r, ?_, ?_⟩
    · split
      · exact hheader
      · rename_i hne
        exact .inr (hr.resolve_left hne)
    have hfloor : se.pageFreshness k (some (bindCursor c.text r)) =
        some (some c.text, if r = "" then se.header k else r) := by
      rw [pageFreshness, if_neg hguard]
      simp only [unbindCursor_bindCursor]
      split
      · rfl
      · rename_i hne
        rw [if_pos (hr.resolve_left hne)]
    simp only [handle, hfloor, Option.bind_eq_bind, Option.bind_some, decodePage_text z hc hnul]
    rw [PageSize.request_after, if_neg hsentinel]
    cases se.path.page se.engine se.store se.listing (se.backend k) (z.request a) <;> rfl

end Search

/-! ## The pages of the paths -/

section Pages

variable {en : Engine} {s : String} {l : Listing}

theorem limited_complete (ids : List String) (m : ℕ) :
    (Scan.mk ids none).limited m = .ok (ids.take m) := by
  unfold Scan.limited
  dsimp only
  split
  · rfl
  · rw [List.take_of_length_le (by omega)]

/-- The page and the cursor that a list of ids with one more yields. -/
theorem buildPage_paged (rest : List String) {n : ℕ} {m : ℕ} (hm : n < m) :
    (buildPage (rest.take m) n).paged =
      (rest.take n, if n < rest.length then (rest.take n).getLast?.map .plain else none) := by
  have hlen : ((n : ℤ) < (rest.take m).length) ↔ n < rest.length := by
    rw [List.length_take]
    omega
  simp only [buildPage, Reply.paged, Int.toNat_natCast, List.take_take, min_eq_left hm.le, hlen]

theorem buildPage_listed (rest : List String) {n : ℕ} {m : ℕ} (hm : n ≤ m) :
    (buildPage (rest.take m) n).listed = rest.take n := by
  rw [buildPage, Reply.listed, Int.toNat_natCast, List.take_take, min_eq_left hm]

/-- A page from the beginning or after a cursor, where one id more is still an `int`. -/
theorem listPage_eq (hs : s ∈ en.stores.names) {page : PageRequest} (h0 : page.offset = 0)
    (hmax : page.limit + 1 ≤ maxInt) :
    en.listPage s l.rows (some page) =
      .ok (buildPage ((l.after page.after).take (page.limit + 1).toNat) page.limit) := by
  have hpos : 0 < page.limit := page.limit_pos
  have hrange : ¬ (page.limit + 1 < 0 ∨ maxInt < page.limit + 1 ∨ (0 : ℤ) < -maxInt - 1 ∨ maxInt < 0) := by
    unfold maxInt at hmax ⊢
    omega
  have hrows : listRows l.rows (page.limit + 1) 0 page.after =
      .ok ((l.after page.after).take (page.limit + 1).toNat) := by
    rw [listRows, if_neg hrange]
    by_cases ha : page.after = ""
    · simp [unlessEmpty, ha, Listing.rows, Listing.after, limited_complete]
    · simp [unlessEmpty, ha, Listing.rows, Listing.after, limited_complete]
  simp only [Engine.listPage, Engine.pageParams, Engine.inStore, if_pos hs, h0, hrows, Engine.noEntity]
  rfl

/-- Beyond the largest `int` a page fails. -/
theorem listPage_beyond (page : PageRequest) (hmax : maxInt < page.limit + 1) :
    (en.listPage s l.rows (some page)).toOption = none := by
  have hrows : listRows l.rows (page.limit + 1) page.offset page.after = .error .other := by
    rw [listRows, if_pos (.inr (.inl hmax))]
  simp only [Engine.listPage, Engine.pageParams, Engine.inStore, hrows, ite_self, Engine.noEntity]
  rfl

/-- The window of a page that is asked from the beginning or after a cursor. -/
theorem window_policyPage {page : PageRequest} (h0 : page.offset = 0)
    (hlt : page.limit + 1 < 2 ^ 63) :
    (policyPage page).limit = page.limit + 1 ∧ ∃ w, window (policyPage page) = some w ∧
      ∃ h, pageReq w = some ⟨page.limit + 1, 0, page.after, h⟩ := by
  have hpos : 0 < page.limit := page.limit_pos
  have hint : goInt (page.limit + 1) = page.limit + 1 := by
    rw [goInt]
    exact Int.bmod_eq_of_le (by omega) (by omega)
  refine ⟨hint, ?_⟩
  have hpos' : 0 < page.limit + 1 := by omega
  by_cases ha : page.after = ""
  · refine ⟨.offset (page.limit + 1) 0, ?_, hpos', ?_⟩
    · simp [window, policyPage, pageInput, unlessEmpty, ha, h0, hint]
    · simp [pageReq, hpos', ha]
  · refine ⟨.after (page.limit + 1) page.after, ?_, hpos', ?_⟩
    · simp [window, policyPage, pageInput, unlessEmpty, ha, hint]
    · simp [pageReq, hpos']

/-- The policies get one id more than the page holds. -/
theorem raw_eq (hs : s ∈ en.stores.names) {page : PageRequest} (h0 : page.offset = 0)
    (hmax : page.limit + 2 ≤ maxInt) :
    (window (policyPage page)).bind (nativePage en s l) =
      some ((l.after page.after).take (page.limit + 1).toNat) := by
  have hlt : page.limit + 1 < 2 ^ 63 := by
    unfold maxInt at hmax
    omega
  obtain ⟨-, w, hw, hpos, hreq⟩ := window_policyPage h0 hlt
  have hpage : en.listPage s l.rows (some ⟨page.limit + 1, 0, page.after, hpos⟩) =
      .ok (buildPage ((l.after page.after).take (page.limit + 1 + 1).toNat) (page.limit + 1)) := by
    refine listPage_eq hs rfl ?_
    show page.limit + 1 + 1 ≤ maxInt
    omega
  rw [hw, Option.bind_some, nativePage, hreq, hpage]
  have hn : ((page.limit + 1).toNat : ℤ) = page.limit + 1 := Int.toNat_of_nonneg (by omega)
  simp only [Except.toOption, Option.map_some]
  rw [← hn, buildPage_listed _ (by omega), Int.toNat_natCast]

/-- Beyond the largest `int` the policies get nothing. -/
theorem raw_beyond {page : PageRequest} (h0 : page.offset = 0) (hmax : maxInt < page.limit + 2)
    (hlt : page.limit + 1 < 2 ^ 63) :
    (window (policyPage page)).bind (nativePage en s l) = none := by
  obtain ⟨-, w, hw, hpos, hreq⟩ := window_policyPage h0 hlt
  have hpage : (en.listPage s l.rows (some ⟨page.limit + 1, 0, page.after, hpos⟩)).toOption = none := by
    refine listPage_beyond _ ?_
    show maxInt < page.limit + 1 + 1
    omega
  rw [hw, Option.bind_some, nativePage, hreq, hpage, Option.map_none]

/-- With a limit that wraps around the policies get the first page of the handler. -/
theorem raw_wrapped (hs : s ∈ en.stores.names) {page : PageRequest} (h0 : page.offset = 0)
    (ha : page.after = "") (hlimit : page.limit + 1 = 2 ^ 63) :
    (window (policyPage page)).bind (nativePage en s l) = some (l.ids.take 100) := by
  have hint : goInt (page.limit + 1) = -2 ^ 63 := by
    rw [goInt, hlimit]
    decide
  have hw : window (policyPage page) = some (.offset (-2 ^ 63) 0) := by
    simp [window, policyPage, pageInput, unlessEmpty, ha, h0, hint]
  have hrows : listRows l.rows (100 + 1) 0 "" = .ok (l.ids.take 101) := by
    simpa [listRows, maxInt, unlessEmpty, Listing.rows] using limited_complete l.ids 101
  have hreq : pageReq (.offset (-2 ^ 63) 0) = none := by decide
  rw [hw, Option.bind_some, nativePage, hreq]
  simp only [Engine.listPage, Engine.pageParams, Engine.inStore, if_pos hs, hrows, Engine.noEntity]
  exact congrArg some (buildPage_listed l.ids (n := 100) (m := 101) (by omega))

/-- The filtered page of a list of ids with one more, within the bound. -/
theorem filterPage_some {e : Env} {i : Input} {denied : String → Bool} {cap : ℕ} {p : Page}
    (hcap : activeCap e i = some cap) {rest : List String} {n : ℕ} (hp : p.limit = n + 1)
    (hle : (rest.take (n + 1)).length ≤ cap) :
    filterPage e i denied p (rest.take (n + 1)) =
      .page ((rest.take n).filter fun id => denied id = false) (n < rest.length)
        (rest.take n).getLast? := by
  have hconsumed : consumed p (rest.take (n + 1)) = rest.take n := by
    rw [consumed, hp, List.take_take]
    congr 1
    omega
  have hmore : (p.limit ≤ ((rest.take (n + 1)).length : ℤ)) ↔ n < rest.length := by
    rw [hp, List.length_take]
    omega
  simp only [filterPage, hcap, gt_iff_lt, not_lt.mpr hle, if_false, hconsumed, hmore]

end Pages

namespace Search

variable {se : Search} {z : PageSize}

/-- The ids of a page that are shown. -/
def shown (se : Search) (ids : List String) : List String :=
  match se.path with
  | .direct => ids
  | .policies e i denied =>
    if (activeCap e i).isSome then ids.filter fun id => denied id = false else ids

theorem allowed_eq (se : Search) : se.allowed = se.shown se.listing.ids := rfl

theorem shown_append (se : Search) (ids ids' : List String) :
    se.shown (ids ++ ids') = se.shown ids ++ se.shown ids' := by
  unfold shown
  cases se.path with
  | direct => rfl
  | policies e i denied =>
    dsimp only
    split
    · exact List.filter_append _ _
    · rfl

/--
Each request after an id gets the next ids that are shown, with a cursor that carries the last of them if
there are more.
-/
def Served (se : Search) (z : PageSize) : Prop :=
  ∀ k a, ∃ cursor : String → Cursor, (∀ x, se.Carries (cursor x) x) ∧
    se.path.page se.engine se.store se.listing (se.backend k) (z.request a) =
      some (se.shown ((se.listing.after a).take z.ids),
        if z.ids < (se.listing.after a).length then
          ((se.listing.after a).take z.ids).getLast?.map cursor
        else none)

theorem served_direct (hpath : se.path = .direct) (hmax : (z.ids + 1 : ℤ) ≤ maxInt) :
    se.Served z := by
  intro k a
  refine ⟨.plain, fun x => .inl rfl, ?_⟩
  have hlimit : (z.request a).limit = z.ids := z.request_limit a
  have hn := z.toNat_request_limit a
  simp only [hpath, Path.page, shown]
  rw [listPage_eq se.store_mem rfl (by rw [hlimit]; exact hmax), hn, hlimit]
  exact congrArg some (buildPage_paged (se.listing.after a) (Nat.lt_succ_self z.ids))

theorem served_unfiltered {e : Env} {i : Input} {denied : String → Bool}
    (hpath : se.path = .policies e i denied) (hcap : activeCap e i = none)
    (hmax : (z.ids + 2 : ℤ) ≤ maxInt) : se.Served z := by
  intro k a
  refine ⟨.plain, fun x => .inl rfl, ?_⟩
  have hlimit : (z.request a).limit = z.ids := z.request_limit a
  have hn := z.toNat_request_limit a
  simp only [hpath, Path.page, shown, hcap, Option.isSome_none, Bool.false_eq_true, if_false]
  rw [raw_eq se.store_mem rfl (by rw [hlimit]; exact hmax), hn, hlimit]
  simp only [Option.map_some, filterPage, hcap]
  exact congrArg some (buildPage_paged (se.listing.after a) (Nat.lt_succ_self z.ids))

theorem served_filtered {e : Env} {i : Input} {denied : String → Bool} {cap : ℕ}
    (hpath : se.path = .policies e i denied) (hcap : activeCap e i = some cap)
    (hmax : (z.ids + 2 : ℤ) ≤ maxInt) (hbound : z.ids < cap ∨ se.listing.ids.length ≤ cap) :
    se.Served z := by
  intro k a
  refine ⟨fun x => .locked (se.sealing.sealCursorValue (se.nonce k) se.aad x),
    fun x => .inr ⟨_, rfl⟩, ?_⟩
  have hlimit : (z.request a).limit = z.ids := z.request_limit a
  have hn := z.toNat_request_limit a
  have hshort : (se.listing.after a).length ≤ se.listing.ids.length := by
    unfold Listing.after
    split
    · exact le_rfl
    · exact List.length_filter_le _ _
  have hle : ((se.listing.after a).take (z.ids + 1)).length ≤ cap := by
    rw [List.length_take]
    omega
  have hpage : (policyPage (z.request a)).limit = z.ids + 1 := by
    have hlt : (z.request a).limit + 1 < 2 ^ 63 := by
      rw [hlimit]
      unfold maxInt at hmax
      omega
    rw [(window_policyPage rfl hlt).1, hlimit]
  simp only [hpath, Path.page, shown, hcap, Option.isSome_some, if_true]
  rw [raw_eq se.store_mem rfl (by rw [hlimit]; exact hmax), hn, Option.map_some,
    PageSize.request_after, filterPage_some hcap hpage hle]
  -- the page object carries the last id, which is sealed if there are more
  by_cases hmore : z.ids < (se.listing.after a).length
  · have hne : (se.listing.after a).take z.ids ≠ [] := by
      have := z.ids_pos
      rw [Ne, List.take_eq_nil_iff]
      rintro (h0 | hnil)
      · omega
      · simp [hnil] at hmore
    simp [Backend.decodePage, decodeIDs, Backend.pageFromFiltered, backend, hmore,
      List.getLast?_eq_some_getLast hne, Except.toOption, Reply.paged, bind, Except.bind, pure, Except.pure]
  · simp [Backend.decodePage, decodeIDs, Backend.pageFromFiltered, hmore, Except.toOption, Reply.paged,
      bind, Except.bind, pure, Except.pure]

/-- The answer to a request after `a`, with a token that asks for the page after the last id of this
one if there are more. -/
theorem respond_of_points (hserved : se.Served z) (k : ℕ) {token : Option PageText} {a : String}
    (htoken : se.Points token a) (ha : a = "" ∨ a ∈ se.listing.ids) :
    if z.ids < (se.listing.after a).length then
      ∃ id token', ((se.listing.after a).take z.ids).getLast? = some id ∧
        se.respond z.limit z.size k token =
          some (se.shown ((se.listing.after a).take z.ids), some token') ∧ se.Points token' id
    else se.respond z.limit z.size k token = some (se.shown (se.listing.after a), none) := by
  obtain ⟨r, hr, hhandle⟩ := handle_of_points z k htoken ha
  obtain ⟨cursor, hcursor, hpage⟩ := hserved k a
  rw [hpage] at hhandle
  split
  · rename_i hmore
    have hne : (se.listing.after a).take z.ids ≠ [] := by
      have := z.ids_pos
      rw [Ne, List.take_eq_nil_iff]
      rintro (h0 | hnil)
      · omega
      · simp [hnil] at hmore
    refine ⟨_, some (bindCursor (cursor (List.getLast _ hne)).text r), List.getLast?_eq_some_getLast hne,
      ?_, .next (hcursor _) hr⟩
    rw [respond, hhandle, if_pos hmore, List.getLast?_eq_some_getLast hne]
    rfl
  · rename_i hlast
    rw [respond, hhandle, if_neg hlast, List.take_of_length_le (not_lt.mp hlast)]
    rfl

/-- The ids after a listed one are those behind it. -/
theorem after_of_split (l : Listing) {x : String} (before : List String) {behind : List String}
    (hsplit : l.ids = before ++ x :: behind) (hne : x ≠ "") : l.after x = behind := by
  have hsorted := l.sorted
  rw [hsplit, List.pairwise_append, List.pairwise_cons] at hsorted
  obtain ⟨-, ⟨hbehind, -⟩, hbefore⟩ := hsorted
  rw [Listing.after, if_neg hne, hsplit, List.filter_append, List.filter_cons_of_neg (by simp [l.irrefl]),
    List.filter_eq_nil_iff.mpr, List.nil_append, List.filter_eq_self.mpr]
  · exact hbehind
  · intro y hy
    simp [l.asymm y x (hbefore y hy x List.mem_cons_self)]

theorem after_getElem (l : Listing) {m : ℕ} (hm : m < l.ids.length) (hne : l.ids[m] ≠ "") :
    l.after l.ids[m] = l.ids.drop (m + 1) := by
  refine after_of_split l (l.ids.take m) ?_ hne
  rw [List.getElem_cons_drop, List.take_append_drop]

/-- The last id of a page that begins at a multiple of the page size. -/
theorem last_of_page {ids : List String} {n j : ℕ} (hn : 0 < n)
    (hmore : n < (ids.drop (n * j)).length) {id : String}
    (hlast : ((ids.drop (n * j)).take n).getLast? = some id) :
    n * (j + 1) < ids.length ∧ ids[n * (j + 1) - 1]? = some id := by
  rw [List.length_drop] at hmore
  have hsucc : n * (j + 1) = n * j + n := Nat.mul_succ n j
  refine ⟨by omega, ?_⟩
  rw [List.getLast?_eq_getElem?, List.length_take, List.length_drop, List.getElem?_take_of_lt (by omega),
    List.getElem?_drop] at hlast
  rw [← hlast]
  congr 1
  omega

/-- The token asks for the ids from a page of the whole list on. -/
def Before (se : Search) (n : ℕ) (rest : List String) (token : Option PageText) : Prop :=
  ∃ a j, se.Points token a ∧ (a = "" ∨ a ∈ se.listing.ids) ∧ se.listing.after a = rest ∧
    rest = se.listing.ids.drop (n * j)

theorem before_start (se : Search) (n : ℕ) : se.Before n se.listing.ids none :=
  ⟨"", 0, .start, .inl rfl, by simp [Listing.after], by simp⟩

theorem ends_of_not_stuck (hserved : se.Served z) (hstuck : ¬ se.Stuck z.ids) :
    se.Lossless z.limit z.size := by
  refine Feed.ends_of_segments (se.Before z.ids) z.ids_pos se.shown_append ?_
    (se.before_start z.ids)
  rintro k rest token ⟨a, j, htoken, ha, hafter, hrest⟩
  have h := respond_of_points hserved k htoken ha
  rw [hafter] at h
  by_cases hmore : z.ids < rest.length
  · rw [if_pos hmore] at h ⊢
    obtain ⟨id, token', hlast, hrespond, htoken'⟩ := h
    subst hrest
    obtain ⟨hlt, hid⟩ := last_of_page z.ids_pos hmore hlast
    -- the token holds an id of the list that is not empty, and so it asks for the ids behind it
    have hne : id ≠ "" := by
      rintro rfl
      exact hstuck ⟨j, hid, hlt⟩
    obtain ⟨hm, rfl⟩ := List.getElem?_eq_some_iff.mp hid
    have hpos : 0 < z.ids * (j + 1) := Nat.mul_pos z.ids_pos j.succ_pos
    have hdrop : se.listing.ids.drop (z.ids * (j + 1) - 1 + 1) = se.listing.ids.drop (z.ids * (j + 1)) := by
      rw [Nat.sub_add_cancel hpos]
    refine ⟨token', hrespond, _, j + 1, htoken', .inr (List.getElem_mem hm), ?_, ?_⟩
    · rw [after_getElem se.listing hm hne, hdrop, List.drop_drop, Nat.mul_succ]
    · rw [List.drop_drop, Nat.mul_succ]
  · rw [if_neg hmore] at h ⊢
    exact h

/-- **A search that is stuck starts again and again.** -/
theorem not_ends_of_stuck (hserved : se.Served z) (hstuck : se.Stuck z.ids) (l : List String) :
    ¬ Feed.Ends (se.respond z.limit z.size) 0 none l := by
  obtain ⟨j₀, hempty, hlt₀⟩ := hstuck
  refine Feed.not_ends_of_loop (fun token => ∃ a j, j ≤ j₀ ∧ se.Points token a ∧
    (a = "" ∨ a ∈ se.listing.ids) ∧ se.listing.after a = se.listing.ids.drop (z.ids * j)) ?_
    ⟨"", 0, Nat.zero_le _, .start, .inl rfl, by simp [Listing.after]⟩ l
  rintro k token ⟨a, j, hj, htoken, ha, hafter⟩
  have h := respond_of_points hserved k htoken ha
  have hle : z.ids * (j + 1) ≤ z.ids * (j₀ + 1) := Nat.mul_le_mul_left _ (by omega)
  have hmore : z.ids < (se.listing.ids.drop (z.ids * j)).length := by
    rw [List.length_drop, Nat.lt_sub_iff_add_lt]
    rw [Nat.mul_succ] at hle
    omega
  rw [hafter, if_pos hmore] at h
  obtain ⟨id, token', hlast, hrespond, htoken'⟩ := h
  obtain ⟨-, hid⟩ := last_of_page z.ids_pos hmore hlast
  refine ⟨_, token', hrespond, ?_⟩
  by_cases hne : id = ""
  · -- the empty id: the next request starts from the beginning
    subst hne
    exact ⟨"", 0, Nat.zero_le _, htoken', .inl rfl, by simp [Listing.after]⟩
  · obtain ⟨hm, rfl⟩ := List.getElem?_eq_some_iff.mp hid
    have hpos : 0 < z.ids * (j + 1) := Nat.mul_pos z.ids_pos j.succ_pos
    refine ⟨_, j + 1, ?_, htoken', .inr (List.getElem_mem hm), ?_⟩
    · -- the page `j₀` ends with the empty id
      rcases hj.lt_or_eq with hlt | rfl
      · omega
      · rw [hempty] at hid
        exact absurd (Option.some.inj hid).symm hne
    · rw [after_getElem se.listing hm hne, Nat.sub_add_cancel hpos]

/-- Where the requests are served, the search is lossless exactly if it is not stuck. -/
theorem lossless_iff_of_served (hserved : se.Served z) :
    se.Lossless z.limit z.size ↔ ¬ se.Stuck z.ids :=
  ⟨fun h hstuck => not_ends_of_stuck hserved hstuck _ h, ends_of_not_stuck hserved⟩

/-! ## Sizes at the limits -/

/-- A search with a page that fails is not answered. -/
theorem respond_start_none
    (h : se.path.page se.engine se.store se.listing (se.backend 0) (z.request "") = none) :
    se.respond z.limit z.size 0 none = none := by
  obtain ⟨r, -, hhandle⟩ := handle_of_points z 0 (.start : se.Points none "") (.inl rfl)
  rw [respond, hhandle, h]
  rfl

/-- A search with a page that comes without a cursor ends with it. -/
theorem respond_start_last {ids : List String}
    (h : se.path.page se.engine se.store se.listing (se.backend 0) (z.request "") = some (ids, none)) :
    se.respond z.limit z.size 0 none = some (ids, none) := by
  obtain ⟨r, -, hhandle⟩ := handle_of_points z 0 (.start : se.Points none "") (.inl rfl)
  rw [respond, hhandle, h]
  rfl

theorem lossless_direct_iff (hpath : se.path = .direct) :
    se.Lossless z.limit z.size ↔ (z.ids + 1 : ℤ) ≤ maxInt ∧ ¬ se.Stuck z.ids := by
  by_cases hmax : (z.ids + 1 : ℤ) ≤ maxInt
  · rw [lossless_iff_of_served (served_direct hpath hmax)]
    exact (and_iff_right hmax).symm
  · refine iff_of_false (Feed.not_ends_of_none (respond_start_none ?_) _) fun h => hmax h.1
    simp only [hpath, Path.page]
    rw [listPage_beyond _ (by rw [z.request_limit]; omega), Option.map_none]

theorem lossless_unfiltered_iff {e : Env} {i : Input} {denied : String → Bool}
    (hpath : se.path = .policies e i denied) (hcap : activeCap e i = none) :
    se.Lossless z.limit z.size ↔
      if (z.ids + 2 : ℤ) ≤ maxInt then ¬ se.Stuck z.ids
      else if (z.ids + 1 : ℤ) < 2 ^ 63 then se.listing.ids = []
      else se.listing.ids.length ≤ 100 := by
  have hallowed : se.allowed = se.listing.ids := by
    simp [allowed, hpath, hcap]
  have hlimit : (z.request "").limit = z.ids := z.request_limit ""
  split
  · rename_i hmax
    exact lossless_iff_of_served (served_unfiltered hpath hcap hmax)
  split
  · rename_i hmax hlt
    have hpage : se.path.page se.engine se.store se.listing (se.backend 0) (z.request "") =
        some ([], none) := by
      simp only [hpath, Path.page]
      rw [raw_beyond rfl (by rw [hlimit]; omega) (by rw [hlimit]; exact hlt)]
      have h0 : ¬ (z.request "").limit < 0 := not_lt.mpr (z.request "").limit_pos.le
      simp [Backend.decodePage, decodeIDs, buildPage, h0, Except.toOption, Reply.paged, bind, Except.bind,
        pure, Except.pure]
    rw [Lossless, hallowed, Feed.ends_iff_of_last (respond_start_last hpage)]
    exact eq_comm
  · rename_i hmax hlt
    have hwrap : (z.request "").limit + 1 = 2 ^ 63 := by
      have := z.ids_lt
      rw [hlimit]
      omega
    have hlong : 100 ≤ z.ids := by
      rw [hlimit] at hwrap
      omega
    have hpage : se.path.page se.engine se.store se.listing (se.backend 0) (z.request "") =
        some (se.listing.ids.take 100, none) := by
      have hshort : ¬ (z.ids : ℤ) < (se.listing.ids.take 100).length := by
        rw [List.length_take]
        omega
      simp only [hpath, Path.page]
      rw [raw_wrapped se.store_mem rfl rfl hwrap, hlimit]
      simp only [Option.map_some, filterPage, hcap, Backend.decodePage, decodeIDs, buildPage, if_neg hshort,
        Except.toOption, Reply.paged, bind, Except.bind, pure, Except.pure, Int.toNat_natCast,
        List.take_take, min_eq_right hlong]
    rw [Lossless, hallowed, Feed.ends_iff_of_last (respond_start_last hpage), List.take_eq_self_iff]

theorem lossless_filtered_iff {e : Env} {i : Input} {denied : String → Bool} {cap : ℕ}
    (hpath : se.path = .policies e i denied) (hcap : activeCap e i = some cap) (hle : z.ids ≤ cap)
    (hrange : cap ≤ 100000) :
    se.Lossless z.limit z.size ↔
      (z.ids < cap ∨ se.listing.ids.length ≤ cap) ∧ ¬ se.Stuck z.ids := by
  have hmax : (z.ids + 2 : ℤ) ≤ maxInt := by
    unfold maxInt
    omega
  by_cases hbound : z.ids < cap ∨ se.listing.ids.length ≤ cap
  · rw [lossless_iff_of_served (served_filtered hpath hcap hmax hbound)]
    exact (and_iff_right hbound).symm
  · refine iff_of_false (Feed.not_ends_of_none (respond_start_none ?_) _) fun h => hbound h.1
    -- the page has as many ids as the bound, and the one that is read beyond it exceeds the bound
    have hlimit : (z.request "").limit = z.ids := z.request_limit ""
    have hn : ((z.request "").limit + 1).toNat = z.ids + 1 := by
      rw [hlimit]
      omega
    have hmany : cap < (se.listing.ids.take (z.ids + 1)).length := by
      rw [List.length_take]
      omega
    simp only [hpath, Path.page]
    rw [raw_eq se.store_mem rfl (by rw [hlimit]; exact hmax), hn]
    simp only [Option.map_some, filterPage, hcap, PageSize.request_after, Listing.after, if_true,
      gt_iff_lt, hmany, Backend.decodePage, decodeIDs, Except.toOption, bind, Except.bind, Option.map_none]

/-- The page size is within the bound of the filter, which the policies read from 1 to 100000. -/
def WithinCap (se : Search) (n : ℕ) : Prop :=
  ∀ e i denied cap, se.path = .policies e i denied → activeCap e i = some cap → n ≤ cap ∧ cap ≤ 100000

end Search

/-- **When a search over pages loses nothing**: `Search.Holds`. -/
theorem search_lossless_iff (se : Search) (z : PageSize) (hcap : se.WithinCap z.ids) :
    se.Lossless z.limit z.size ↔ se.Holds z.ids := by
  unfold Search.Holds
  cases hpath : se.path with
  | direct => exact Search.lossless_direct_iff hpath
  | policies e i denied =>
    dsimp only
    cases hactive : activeCap e i with
    | none => exact Search.lossless_unfiltered_iff hpath hactive
    | some cap =>
      obtain ⟨hle, hrange⟩ := hcap e i denied cap hpath hactive
      exact Search.lossless_filtered_iff hpath hactive hle hrange

/-- A sealing for the examples, which hides nothing. -/
def openSealing : Sealing where
  Nonce := Unit
  lock _ text aad := String.ofList ('s' :: (aad ++ text).toList)
  unlock text aad := some (String.ofList (text.toList.drop (1 + aad.length)))
  unlock_lock _ text aad := by
    rw [String.toList_ofList, Nat.add_comm, List.drop_succ_cons, String.toList_append,
      ← String.length_toList, List.drop_left, String.ofList_toList]
  lock_ne_empty _ text aad h := by
    simpa using congrArg String.toList h

/-- The ids in the order of their code points. -/
def Listing.ofSorted (ids : List String) (hsorted : ids.Pairwise (· < ·))
    (hnul : ∀ id ∈ ids, '\x00' ∉ id.toList) : Listing where
  lt x y := x < y
  ids := ids
  irrefl x := by simp
  asymm x y h := by
    simp only [decide_eq_true_eq, decide_eq_false_iff_not] at h ⊢
    exact lt_asymm h
  sorted := by simpa using hsorted
  no_nul := hnul

/-- A search of the direct backend in a store `s`, without a freshness floor. -/
def directSearch (listing : Listing) : Search where
  engine :=
    { stores := ⟨["s"], by decide⟩
      decide := fun _ _ _ => .ok false
      explain := fun _ _ _ => .ok []
      listObjects := fun _ _ _ _ _ _ => listing.rows
      listSubjects := fun _ _ _ _ _ _ => listing.rows
      listActions := fun _ _ _ _ _ _ => .ok [] }
  store := "s"
  listing := listing
  path := .direct
  sealing := openSealing
  nonce _ := ()
  aad := ""
  header _ := ""
  fresh _ := true
  store_mem := List.mem_singleton.mpr rfl
  met _ _ := rfl

/-- The search that lists the empty id and `a`. -/
def emptyIdSearch : Search :=
  directSearch (.ofSorted ["", "a"] (by decide) (by decide))

/-- Pages of one id. -/
def onePerPage : PageSize := ⟨1, 0, by decide, by decide⟩

/-- With one id a page, the search for the empty id and another one never ends. -/
theorem emptyIdSearch_endless : ¬ emptyIdSearch.Lossless onePerPage.limit onePerPage.size := by
  rw [Search.lossless_direct_iff rfl]
  rintro ⟨-, hstuck⟩
  exact hstuck ⟨0, rfl, by decide⟩

theorem activeCap_aliceReads : activeCap (aliceEnv fun _ => []) aliceReads = some 1000 := by
  have hloaded : hooksLoaded (aliceEnv fun _ => []) aliceReads = some ["freeze"] := by
    simp [hooksLoaded, store, aliceEnv, aliceReads]
  have hguard : guarded (aliceEnv fun _ => []) aliceReads = false := by
    rw [guarded, show environmentUnknown (deployment aliceReads) = false from rfl]
    simp
  simp only [activeCap, enumerationFiltering, hguard, hooked, hloaded]
  rfl

/-- A filtered search for three ids, the second of them denied, with one id a page. -/
theorem search_lossless_filtered :
    ({ directSearch (.ofSorted ["a", "b", "c"] (by decide) (by decide)) with
      path := .policies (aliceEnv fun _ => []) aliceReads (· == "b") } : Search).Lossless 1 0 := by
  refine (search_lossless_iff _ onePerPage ?_).mpr ?_
  · rintro e i denied cap ⟨⟩ hcap
    rw [activeCap_aliceReads, Option.some.injEq] at hcap
    subst hcap
    exact ⟨by decide, by decide⟩
  · simp only [Search.Holds, activeCap_aliceReads]
    refine ⟨.inl (by decide), ?_⟩
    rintro ⟨j, hid, hlt⟩
    have hj : j < 2 := by
      have : 1 * (j + 1) < 3 := hlt
      omega
    interval_cases j
    · exact absurd hid (by decide)
    · exact absurd hid (by decide)

end PgAuthz.Opa
