import PgAuthz.Watch.Changes

/-!
# The cursor of the HTTP changefeed

`Backend.WatchChanges` returns a page of the changefeed with a cursor to pass back. The cursor is
aggregated from the page component by component: its instant is that of the last row, its number is
the greatest of the page, which need not be that of the last row. A consumer therefore loses the
rows of the last instant whose numbers lie between the two.

## Main definitions

* `WatchRequest`, `WatchResponse`: request and response of the endpoint
* `backendWatchChanges`: `Backend.WatchChanges`
* `received`: what a consumer receives that passes each cursor back
* `Ahead page a`: the cursor of `page` is below the row `a`

## Main results

* `receives_iff`: when a consumer receives every row above the cursor it starts from
* `watch_lossless_iff`: when it receives the whole log, or every row above a state of the log
-/

namespace PgAuthz

open Feed

/-! ## The endpoint -/

/-- A request: no instant stands for the beginning, and an empty list for no filter. -/
structure WatchRequest where
  afterAt : Option ℤ
  afterSeq : ℤ
  limit : ℤ
  objectTypes : List ℕ
  namespaces : List String
  relations : List ℕ

/-- A page with its `next_cursor`. -/
structure WatchResponse where
  events : List AuditRow
  afterAt : Option ℤ
  afterSeq : ℤ

/-- `nilIfEmpty`. -/
def nilIfEmpty {α : Type} : List α → Option (List α)
  | [] => none
  | l => some l

/-- The filters of a request. -/
def WatchRequest.filter (namespaceOf : ℕ → Option String) (req : WatchRequest) : WatchFilter :=
  ⟨namespaceOf, nilIfEmpty req.objectTypes, nilIfEmpty req.namespaces, nilIfEmpty req.relations⟩

/-- The position after which a request asks. -/
def WatchRequest.cursor (req : WatchRequest) : Cursor :=
  toLex (req.afterAt.elim ⊥ fun t => ↑t, req.afterSeq)

/-- The page limit: 1000 unless a positive one is given. -/
def WatchRequest.pageLimit (req : WatchRequest) : ℕ :=
  if req.limit ≤ 0 then 1000 else req.limit.toNat

variable (log : List AuditRow) (namespaceOf : ℕ → Option String) (store : ℕ)

/-- `Backend.WatchChanges`, at the instant `horizon` of the clock less the lag. -/
def backendWatchChanges (horizon : ℤ) (req : WatchRequest) : WatchResponse :=
  let events := watchChanges log store req.cursor (some req.pageLimit) (.lag horizon)
    (req.filter namespaceOf)
  let last := maxCursor events
  ⟨events, last.1 <|> req.afterAt, last.2.getD req.afterSeq⟩

/-- The request that passes the cursor of a response back. -/
def WatchRequest.resume (req : WatchRequest) (resp : WatchResponse) : WatchRequest :=
  { req with afterAt := resp.afterAt, afterSeq := resp.afterSeq }

/-- The request from the beginning. -/
def WatchRequest.fromStart (req : WatchRequest) : WatchRequest :=
  { req with afterAt := none, afterSeq := 0 }

/-- The request from `watch_cursor`; a `NULL` component is left out of the request. -/
def WatchRequest.fromCursor (req : WatchRequest) (c : Option ℤ × Option ℤ) : WatchRequest :=
  { req with afterAt := c.1, afterSeq := c.2.getD 0 }

/-- What `k` polls receive of a fixed log, each at its own instant. -/
def received : (horizon : ℕ → ℤ) → ℕ → WatchRequest → List AuditRow
  | _, 0, _ => []
  | horizon, k + 1, req =>
    let resp := backendWatchChanges log namespaceOf store (horizon 0) req
    resp.events ++ received (fun i => horizon (i + 1)) k (req.resume resp)

/-- The consumer receives the rows, in order and once. -/
def Receives (horizon : ℕ → ℤ) (req : WatchRequest) (rows : List AuditRow) : Prop :=
  ∃ N, ∀ k, N ≤ k → received log namespaceOf store horizon k req = rows

/-! ## The cursor against the rows -/

/-- The cursor of a page with rows. -/
def nextCursor (page : List AuditRow) : Option Cursor :=
  match maxCursor page with
  | (some t, some s) => some (toLex (↑t, s))
  | _ => none

/-- The row is ahead of the page: if it shares the instant of a row of the page, its number is
above all numbers of the page. -/
def Ahead (page : List AuditRow) (a : AuditRow) : Prop :=
  ∀ b ∈ page, b.performedAt = a.performedAt → ∀ b' ∈ page, b'.seq < a.seq

/-- The rows after each page of `n` rows are ahead of the page. -/
def PagesAhead (n : ℕ) (rows : List AuditRow) : Prop :=
  ∀ i, ∀ a ∈ rows.drop (n * (i + 1)), Ahead ((rows.drop (n * i)).take n) a

instance (page : List AuditRow) (a : AuditRow) : Decidable (Ahead page a) :=
  inferInstanceAs (Decidable (∀ b ∈ page, b.performedAt = a.performedAt → ∀ b' ∈ page, b'.seq < a.seq))

theorem nextCursor_covers : Covers AuditRow.key nextCursor where
  nil := rfl
  le page hp := by
    obtain ⟨t, s, hmax, -, -, hle⟩ := maxCursor_eq hp
    refine ⟨toLex (↑t, s), by rw [nextCursor, hmax], fun a ha => ?_⟩
    obtain ⟨hat, hseq⟩ := hle a ha
    rw [AuditRow.key, Prod.Lex.toLex_le_toLex]
    rcases hat.lt_or_eq with hlt | heq
    · exact .inl (WithBot.coe_lt_coe.mpr hlt)
    · exact .inr ⟨WithBot.coe_inj.mpr heq, hseq⟩

/-- A row that is not before the rows of a page is above its cursor exactly if it is ahead. -/
theorem nextCursor_lt_iff {page : List AuditRow} {a : AuditRow} {c : Cursor}
    (hle : ∀ b ∈ page, b.performedAt ≤ a.performedAt) (hc : nextCursor page = some c) :
    c < a.key ↔ Ahead page a := by
  have hp : page ≠ [] := by
    rintro rfl
    cases hc
  obtain ⟨t, s, hmax, ⟨b, hb, rfl⟩, ⟨b', hb', rfl⟩, hbound⟩ := maxCursor_eq hp
  obtain rfl : toLex ((↑b.performedAt : WithBot ℤ), b'.seq) = c := by
    rw [nextCursor, hmax] at hc
    exact Option.some.inj hc
  rw [AuditRow.key, Prod.Lex.toLex_lt_toLex]
  simp only [WithBot.coe_lt_coe, WithBot.coe_inj]
  constructor
  · rintro (hlt | ⟨-, hseq⟩) d hd heq e he
    · exact absurd ((hbound d hd).1.trans_lt hlt) (by omega)
    · exact (hbound e he).2.trans_lt hseq
  · intro hahead
    rcases (hle b hb).lt_or_eq with hlt | heq
    · exact .inl hlt
    · exact .inr ⟨heq, hahead b hb heq b' hb'⟩

/-- For rows in order, the pages pass no row exactly if the rows after a page are ahead of it. -/
theorem clear_iff_pagesAhead {n : ℕ} {rows : List AuditRow}
    (hsorted : rows.Pairwise fun a b => a.key ≤ b.key) :
    Clear AuditRow.key nextCursor n rows ↔ PagesAhead n rows := by
  refine forall_congr' fun i => forall₂_congr fun a ha => ?_
  -- the rows of the page stand before the row
  have hle : ∀ b ∈ (rows.drop (n * i)).take n, b.performedAt ≤ a.performedAt := by
    intro b hb
    have hsplit : ((rows.drop (n * i)).take n ++ rows.drop (n * (i + 1))).Pairwise
        fun a b => a.key ≤ b.key := by
      rw [Nat.mul_succ, ← List.drop_drop, List.take_append_drop]
      exact hsorted.sublist (List.drop_sublist _ _)
    exact AuditRow.performedAt_le_of_key_le ((List.pairwise_append.mp hsplit).2.2 b hb a ha)
  constructor
  · intro h
    by_cases hp : (rows.drop (n * i)).take n = []
    · simp [hp, Ahead]
    · obtain ⟨c, hc, -⟩ := nextCursor_covers.le _ hp
      exact (nextCursor_lt_iff hle hc).mp (h c hc)
  · exact fun h c hc => (nextCursor_lt_iff hle hc).mpr h

/-! ## The consumer -/

variable {log namespaceOf store}

/-- The cursor of the request after a page. -/
theorem cursor_resume (horizon : ℤ) (req : WatchRequest) :
    (req.resume (backendWatchChanges log namespaceOf store horizon req)).cursor =
      (nextCursor (backendWatchChanges log namespaceOf store horizon req).events).getD
        req.cursor := by
  by_cases hp : (backendWatchChanges log namespaceOf store horizon req).events = []
  · have hmax : maxCursor (backendWatchChanges log namespaceOf store horizon req).events =
        (none, none) := by rw [hp]; rfl
    unfold backendWatchChanges at hmax ⊢
    simp only [WatchRequest.resume, WatchRequest.cursor, nextCursor] at hmax ⊢
    rw [hmax]
    rfl
  · obtain ⟨t, s, hmax, -⟩ := maxCursor_eq hp
    unfold backendWatchChanges at hmax ⊢
    simp only [WatchRequest.resume, WatchRequest.cursor, nextCursor] at hmax ⊢
    rw [hmax]
    rfl

/-- The cursor of the request from `watch_cursor`. -/
theorem cursor_fromCursor (rows : List AuditRow) (req : WatchRequest) :
    (req.fromCursor (maxCursor rows)).cursor = (nextCursor rows).getD req.fromStart.cursor := by
  by_cases hp : rows = []
  · rw [hp]
    rfl
  · obtain ⟨t, s, hmax, -⟩ := maxCursor_eq hp
    rw [nextCursor, hmax]
    rfl

/-- Every row is above the beginning. -/
theorem fromStart_cursor_lt (req : WatchRequest) (a : AuditRow) : req.fromStart.cursor < a.key :=
  Prod.Lex.toLex_lt_toLex.mpr (.inl (WithBot.bot_lt_coe _))

/-- Over a log whose rows are all past the lag, the polls read the rows of the feed page by page. -/
theorem received_eq_pages {horizon : ℕ → ℤ} (hlag : ∀ i, ∀ r ∈ log, r.performedAt ≤ horizon i)
    {h : ℤ} (hh : ∀ r ∈ log, r.performedAt ≤ h) (k : ℕ) (req : WatchRequest) :
    received log namespaceOf store horizon k req =
      pages AuditRow.key nextCursor req.pageLimit
        (feedRows log store (.lag h) (req.filter namespaceOf)) k req.cursor := by
  induction k generalizing horizon req with
  | zero => rfl
  | succ k ih =>
    have hevents : (backendWatchChanges log namespaceOf store (horizon 0) req).events =
        pageAfter AuditRow.key req.pageLimit req.cursor
          (feedRows log store (.lag h) (req.filter namespaceOf)) := by
      rw [← feedRows_lag_congr (hlag 0) hh]
      rfl
    rw [received, pages, ih fun i => hlag (i + 1), cursor_resume, hevents]
    rfl

/-- **The consumer receives every row above its first cursor** exactly if the rows after each page
are ahead of the page. -/
theorem receives_iff (namespaceOf : ℕ → Option String) (store : ℕ) {horizon : ℕ → ℤ}
    (hlag : ∀ i, ∀ r ∈ log, r.performedAt ≤ horizon i) (req : WatchRequest) :
    Receives log namespaceOf store horizon req (watchChanges log store req.cursor none
        (.lag (horizon 0)) (req.filter namespaceOf)) ↔
      PagesAhead req.pageLimit (watchChanges log store req.cursor none (.lag (horizon 0))
        (req.filter namespaceOf)) := by
  have hpos : 0 < req.pageLimit := by
    unfold WatchRequest.pageLimit
    split <;> omega
  have hsorted := (pairwise_feedRows log store (.lag (horizon 0)) (req.filter namespaceOf)).filter
    fun r => req.cursor < r.key
  unfold Receives
  simp only [received_eq_pages hlag (hlag 0)]
  exact (received_all_iff nextCursor_covers hpos req.cursor).trans (clear_iff_pagesAhead hsorted)

/-- The rows above every row of a state of the log. -/
def newRows (state : List AuditRow) (rows : List AuditRow) : List AuditRow :=
  rows.filter fun r => ∀ r₀ ∈ state, r₀.key < r.key

/-- A row above the cursor of a state is above every row of it. -/
theorem above_of_cursor_lt {state : List AuditRow} {req : WatchRequest} {a : AuditRow}
    (ha : (req.fromCursor (maxCursor state)).cursor < a.key) : ∀ r₀ ∈ state, r₀.key < a.key := by
  intro r₀ hr₀
  obtain ⟨c, hc, hle⟩ := nextCursor_covers.le _ (List.ne_nil_of_mem hr₀)
  rw [cursor_fromCursor, hc, Option.getD_some] at ha
  exact (hle r₀ hr₀).trans_lt ha

/-- A row above every row of a state is above its cursor exactly if it is ahead of the state. -/
theorem cursor_lt_iff {state : List AuditRow} {req : WatchRequest} {a : AuditRow}
    (ha : ∀ r₀ ∈ state, r₀.key < a.key) :
    (req.fromCursor (maxCursor state)).cursor < a.key ↔ Ahead state a := by
  rw [cursor_fromCursor]
  by_cases hp : state = []
  · rw [hp]
    exact ⟨fun _ b hb => absurd hb List.not_mem_nil, fun _ => fromStart_cursor_lt req a⟩
  · obtain ⟨c, hc, -⟩ := nextCursor_covers.le _ hp
    rw [hc, Option.getD_some]
    exact nextCursor_lt_iff (fun b hb => AuditRow.performedAt_le_of_key_le (ha b hb).le) hc

theorem watchChanges_fromStart (horizon : ℤ) (req : WatchRequest) (f : WatchFilter) :
    watchChanges log store req.fromStart.cursor none (.lag horizon) f =
      feedRows log store (.lag horizon) f :=
  List.filter_eq_self.mpr fun a _ => by simp [fromStart_cursor_lt req a]

/-- A consumer that starts at the cursor of a state receives every row above the state exactly if
these rows are ahead of the state, and those after each page ahead of the page. -/
theorem receives_new_iff (namespaceOf : ℕ → Option String) (store : ℕ) {horizon : ℕ → ℤ}
    (hlag : ∀ i, ∀ r ∈ log, r.performedAt ≤ horizon i) (state : List AuditRow) (req : WatchRequest) :
    Receives log namespaceOf store horizon (req.fromCursor (maxCursor state)) (newRows state
        (watchChanges log store req.fromStart.cursor none (.lag (horizon 0))
          (req.filter namespaceOf))) ↔
      (∀ a ∈ newRows state (watchChanges log store req.fromStart.cursor none (.lag (horizon 0))
          (req.filter namespaceOf)), Ahead state a) ∧
      PagesAhead req.pageLimit (newRows state (watchChanges log store req.fromStart.cursor none
        (.lag (horizon 0)) (req.filter namespaceOf))) := by
  rw [watchChanges_fromStart]
  set rows := feedRows log store (.lag (horizon 0)) (req.filter namespaceOf) with hrows
  set start := req.fromCursor (maxCursor state) with hstart
  have habove : ∀ a ∈ newRows state rows, ∀ r₀ ∈ state, r₀.key < a.key := fun a ha => by
    simpa using (List.mem_filter.mp ha).2
  -- if the new rows are above the cursor, they are the rows that the consumer asks for
  have hnew : (∀ a ∈ newRows state rows, start.cursor < a.key) →
      watchChanges log store start.cursor none (.lag (horizon 0)) (start.filter namespaceOf) =
        newRows state rows := by
    intro hlt
    refine List.filter_congr fun a ha => ?_
    rw [Bool.eq_iff_iff, decide_eq_true_eq, decide_eq_true_eq]
    constructor
    · exact above_of_cursor_lt
    · exact fun h => hlt a (List.mem_filter.mpr ⟨ha, by simpa using h⟩)
  constructor
  · intro hrec
    have hlt : ∀ a ∈ newRows state rows, start.cursor < a.key := by
      intro a ha
      obtain ⟨N, hN⟩ := hrec
      rw [← hN N le_rfl, received_eq_pages hlag (hlag 0)] at ha
      exact lt_of_mem_pages nextCursor_covers ha
    refine ⟨fun a ha => (cursor_lt_iff (habove a ha)).mp (hlt a ha), ?_⟩
    rw [← hnew hlt] at hrec ⊢
    exact (receives_iff namespaceOf store hlag start).mp hrec
  · rintro ⟨hahead, hpages⟩
    have hlt : ∀ a ∈ newRows state rows, start.cursor < a.key :=
      fun a ha => (cursor_lt_iff (habove a ha)).mpr (hahead a ha)
    rw [← hnew hlt] at hpages ⊢
    exact (receives_iff namespaceOf store hlag start).mpr hpages

/-- A change of one tuple by a transaction that started at `performedAt`. -/
def changeAt (performedAt seq : ℤ) : AuditRow :=
  { userType := 3, userId := "ann", userRelation := none, relation := 1, objectType := 1,
    objectId := "doc", conditionId := none, conditionContext := none, expiresAt := none,
    storeId := 7, seq := seq, action := .insert, performedAt := performedAt, performedBy := "app" }

/-- The request for pages of a feed without filters. -/
def wholeFeed (limit : ℤ) : WatchRequest := ⟨none, 0, limit, [], [], []⟩

end PgAuthz
