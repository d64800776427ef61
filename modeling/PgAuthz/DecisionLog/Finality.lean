import PgAuthz.DecisionLog.Barrier

/-!
# Erasures and purges are final

A tombstone or a fence may go only when every line it keeps out is kept out by something else: by a
fence, or by its age. Retention drops tombstones of lines past the cutoff, and a purge drops those of
lines that its fences cover. Two kinds of lines slip through. A purge drops the tombstones of the store
by name, though a line of another incarnation, deleted without a purge, may still wait. And retention
prunes the fence of an incarnation by the deletion time, though a line of the incarnation may be newer
than the cutoff.

## Main definitions

* `Fits B l`: nothing that was dropped or pruned kept the line out
* `Orderly s e`: the step brings together no line and no dropped ban that do not fit
* `Final s`: no row of what has been erased or purged is in the table

## Main results

* `heldBack_of_stamped`, `heldBack_of_fenced`: a line that fits is kept out as long as it waits
* `erasure_final`: in a run of orderly steps every state is final
* `reincarnation_resurfaces`: a purge of the next incarnation lets an erased line in
-/

namespace PgAuthz.DecisionLog.Barrier

open Transition

/-! ## What keeps a line out -/

section Bans

variable (B : Bans) (l : Line)

/-- A fence covers the line. -/
def Fenced : Prop := ∃ f ∈ B.storeFences, f.covers l = true

/-- A retention run has had a cutoff after the instant. -/
def Swept (ts : ℤ) : Prop := ∃ c, B.swept = some c ∧ ts < c

/-- The line has no store id, or its incarnation has been purged. -/
def OfPurged : Prop :=
  l.storeId = none ∨ ∃ p ∈ B.fenced, p.store = l.store ∧ l.storeId = some p.storeId

/-- **The line fits what is gone**: a tombstone that a purge dropped covered it only if it has no store id
or is of a purged incarnation, and if it is of an incarnation whose fence was pruned, it is older than
the cutoff of that run. -/
def Fits : Prop :=
  (∀ t ∈ B.dropped, t.covers l = true → OfPurged B l) ∧
    ∀ x ∈ B.pruned, l.store = x.1.store → l.storeId = some x.1.storeId → l.ts < x.2

/-- Whatever was stamped or fenced is still there, or is gone for a reason. -/
structure History : Prop where
  fence : ∀ p ∈ B.fenced, (∃ f ∈ B.storeFences, f.store = p.store ∧ f.storeId = p.storeId) ∨
    ∃ x ∈ B.pruned, x.1.store = p.store ∧ x.1.storeId = p.storeId
  bound : ∀ p ∈ B.fenced, (∃ f ∈ B.storeFences, f.store = p.store ∧ p.before ≤ f.purgedAt) ∨
    Swept B p.before
  tombstone : ∀ t ∈ B.stamped, t ∈ B.erasures ∨ t ∈ B.dropped ∨ Swept B t.erasedAt
  dropped : ∀ t ∈ B.dropped, ∃ p ∈ B.fenced, p.store = t.store ∧ t.erasedAt ≤ p.before
  pruned : ∀ x ∈ B.pruned, ∃ c, B.swept = some c ∧ x.2 ≤ c

end Bans

variable {B : Bans} {l : Line} {t : Tombstone} {p : Purge}

theorem Tombstone.covers_iff :
    t.covers l = true ↔ l.store = t.store ∧ l.ts ≤ t.erasedAt ∧ l.names t.subject = true := by
  simp [Tombstone.covers]

theorem Purge.covers_iff : p.covers l = true ↔
    l.store = p.store ∧ (l.storeId = some p.storeId ∨ (l.storeId = none ∧ l.ts ≤ p.before)) := by
  simp [Purge.covers]

theorem Fence.covers_iff {f : Fence} : f.covers l = true ↔
    l.store = f.store ∧ (l.storeId = some f.storeId ∨ (l.storeId = none ∧ l.ts ≤ f.purgedAt)) := by
  simp [Fence.covers]

theorem Swept.mono {ts ts' : ℤ} (h : Swept B ts) (hle : ts' ≤ ts) : Swept B ts' := by
  obtain ⟨c, hc, hlt⟩ := h
  exact ⟨c, hc, by omega⟩

/-- **A line of a purge is fenced or too old.** -/
theorem heldBack_of_fenced (hB : History B) (hp : p ∈ B.fenced) (hl : p.covers l = true)
    (hfits : Fits B l) : Fenced B l ∨ Swept B l.ts := by
  obtain ⟨hstore, hid | ⟨hid, hts⟩⟩ := Purge.covers_iff.mp hl
  · rcases hB.fence p hp with ⟨f, hf, hfs, hfid⟩ | ⟨x, hx, hxs, hxid⟩
    · exact .inl ⟨f, hf, Fence.covers_iff.mpr ⟨by rw [hstore, hfs], .inl (by rw [hid, hfid])⟩⟩
    · -- the fence was pruned, and the line is older than the cutoff of that run
      have hlt := hfits.2 x hx (by rw [hstore, hxs]) (by rw [hid, hxid])
      obtain ⟨c, hc, hle⟩ := hB.pruned x hx
      exact .inr ⟨c, hc, by omega⟩
  · rcases hB.bound p hp with ⟨f, hf, hfs, hle⟩ | hswept
    · exact .inl ⟨f, hf, Fence.covers_iff.mpr ⟨by rw [hstore, hfs], .inr ⟨hid, by omega⟩⟩⟩
    · exact .inr (hswept.mono hts)

/-- **A line of an erasure is under its tombstone, fenced or too old.** -/
theorem heldBack_of_stamped (hB : History B) (ht : t ∈ B.stamped) (hl : t.covers l = true)
    (hfits : Fits B l) : t ∈ B.erasures ∨ Fenced B l ∨ Swept B l.ts := by
  obtain ⟨hstore, hts, -⟩ := Tombstone.covers_iff.mp hl
  rcases hB.tombstone t ht with h | hdropped | hswept
  · exact .inl h
  · -- a purge dropped the tombstone, and its fences cover the line
    right
    rcases hfits.1 t hdropped hl with hid | ⟨p, hp, hps, hid⟩
    · obtain ⟨p, hp, hps, hle⟩ := hB.dropped t hdropped
      exact heldBack_of_fenced hB hp
        (Purge.covers_iff.mpr ⟨by rw [hstore, hps], .inr ⟨hid, by omega⟩⟩) hfits
    · exact heldBack_of_fenced hB hp (Purge.covers_iff.mpr ⟨hps.symm, .inl hid⟩) hfits
  · exact .inr (.inr (hswept.mono hts))

/-! ## What happens to the bans -/

/-- The bans with a new tombstone. -/
theorem History.stamp (hB : History B) (t : Tombstone) :
    History { B with erasures := B.erasures ++ [t], stamped := B.stamped ++ [t] } :=
  { fence := hB.fence
    bound := hB.bound
    tombstone := fun t' ht => by
      rcases List.mem_append.mp ht with ht | ht
      · exact (hB.tombstone t' ht).imp_left fun h => List.mem_append_left _ h
      · exact .inl (List.mem_append_right _ ht)
    dropped := hB.dropped
    pruned := hB.pruned }

theorem exists_upsertFence (fences : List Fence) (f : Fence) :
    ∃ g ∈ upsertFence fences f, g.store = f.store ∧ g.storeId = f.storeId ∧
      f.purgedAt ≤ g.purgedAt := by
  unfold upsertFence
  split_ifs with hany
  · obtain ⟨g, hg, hkey⟩ := List.any_eq_true.mp hany
    have hkey := of_decide_eq_true hkey
    refine ⟨{ g with purgedAt := max g.purgedAt f.purgedAt }, ?_, hkey.1, hkey.2, ?_⟩
    · exact List.mem_map.mpr ⟨g, hg, if_pos hkey⟩
    · exact Int.le_max_right _ _
  · exact ⟨f, List.mem_append_right _ (List.mem_singleton_self f), rfl, rfl, Int.le_refl _⟩

/-- An upsert keeps the fences, with times no smaller. -/
theorem upsertFence_keeps (fences : List Fence) (f : Fence) {g : Fence} (hg : g ∈ fences) :
    ∃ g' ∈ upsertFence fences f, g'.store = g.store ∧ g'.storeId = g.storeId ∧
      g.purgedAt ≤ g'.purgedAt := by
  unfold upsertFence
  split_ifs with hany
  · by_cases hkey : g.store = f.store ∧ g.storeId = f.storeId
    · exact ⟨{ g with purgedAt := max g.purgedAt f.purgedAt },
        List.mem_map.mpr ⟨g, hg, if_pos hkey⟩, rfl, rfl, Int.le_max_left _ _⟩
    · exact ⟨g, List.mem_map.mpr ⟨g, hg, if_neg hkey⟩, rfl, rfl, Int.le_refl _⟩
  · exact ⟨g, List.mem_append_left _ hg, rfl, rfl, Int.le_refl _⟩

/-- The bans with the fences of a purge. -/
def Bans.fenceOff (B : Bans) (p : Purge) : Bans :=
  { B with
    storeFences := upsertFence (upsertFence B.storeFences ⟨p.store, p.storeId, p.before⟩)
      ⟨p.store, 0, p.before⟩
    fenced := B.fenced ++ [p] }

/-- A fence stays through both upserts. -/
theorem Bans.fenceOff_keeps (B : Bans) (p : Purge) {g : Fence} (hg : g ∈ B.storeFences) :
    ∃ g' ∈ (B.fenceOff p).storeFences, g'.store = g.store ∧ g'.storeId = g.storeId ∧
      g.purgedAt ≤ g'.purgedAt := by
  obtain ⟨g₁, hg₁, hs₁, hi₁, ht₁⟩ := upsertFence_keeps _ ⟨p.store, p.storeId, p.before⟩ hg
  obtain ⟨g₂, hg₂, hs₂, hi₂, ht₂⟩ := upsertFence_keeps _ ⟨p.store, 0, p.before⟩ hg₁
  exact ⟨g₂, hg₂, hs₂.trans hs₁, hi₂.trans hi₁, Int.le_trans ht₁ ht₂⟩

/-- The incarnation has its fence, with a time no earlier than the bound. -/
theorem Bans.exists_fenceOff (B : Bans) (p : Purge) :
    ∃ g ∈ (B.fenceOff p).storeFences, g.store = p.store ∧ g.storeId = p.storeId ∧
      p.before ≤ g.purgedAt := by
  obtain ⟨g₁, hg₁, hs₁, hi₁, ht₁⟩ :=
    exists_upsertFence B.storeFences ⟨p.store, p.storeId, p.before⟩
  obtain ⟨g₂, hg₂, hs₂, hi₂, ht₂⟩ := upsertFence_keeps _ ⟨p.store, 0, p.before⟩ hg₁
  exact ⟨g₂, hg₂, hs₂.trans hs₁, hi₂.trans hi₁, Int.le_trans ht₁ ht₂⟩

theorem History.fenceOff (hB : History B) (p : Purge) : History (B.fenceOff p) where
  fence q hq := by
    rcases List.mem_append.mp hq with hq | hq
    · refine (hB.fence q hq).imp_left fun ⟨g, hg, hs, hi⟩ => ?_
      obtain ⟨g', hg', hs', hi', -⟩ := B.fenceOff_keeps p hg
      exact ⟨g', hg', hs'.trans hs, hi'.trans hi⟩
    · obtain rfl := List.mem_singleton.mp hq
      obtain ⟨g, hg, hs, hi, -⟩ := B.exists_fenceOff q
      exact .inl ⟨g, hg, hs, hi⟩
  bound q hq := by
    rcases List.mem_append.mp hq with hq | hq
    · refine (hB.bound q hq).imp_left fun ⟨g, hg, hs, ht⟩ => ?_
      obtain ⟨g', hg', hs', -, ht'⟩ := B.fenceOff_keeps p hg
      exact ⟨g', hg', hs'.trans hs, Int.le_trans ht ht'⟩
    · obtain rfl := List.mem_singleton.mp hq
      obtain ⟨g, hg, hs, -, ht⟩ := B.exists_fenceOff q
      exact .inl ⟨g, hg, hs, ht⟩
  tombstone := hB.tombstone
  dropped t ht := by
    obtain ⟨q, hq, hs, hle⟩ := hB.dropped t ht
    exact ⟨q, List.mem_append_left _ hq, hs, hle⟩
  pruned := hB.pruned

theorem Fits.fenceOff (h : Fits B l) (p : Purge) : Fits (B.fenceOff p) l := by
  refine ⟨fun t ht hcov => (h.1 t ht hcov).imp_right ?_, h.2⟩
  exact fun ⟨q, hq, hs, hid⟩ => ⟨q, List.mem_append_left _ hq, hs, hid⟩

/-- The bans without the tombstones that a purge drops. -/
theorem History.drop (hB : History B) (hp : p ∈ B.fenced) {ts : List Tombstone}
    (hts : ∀ t ∈ ts, t.store = p.store ∧ t.erasedAt ≤ p.before) :
    History { B with
      erasures := B.erasures.filter fun t => t ∉ ts, dropped := B.dropped ++ ts } :=
  { fence := hB.fence
    bound := hB.bound
    tombstone := fun t ht => by
      rcases hB.tombstone t ht with h | h | h
      · by_cases hmem : t ∈ ts
        · exact .inr (.inl (List.mem_append_right _ hmem))
        · exact .inl (List.mem_filter.mpr ⟨h, by simpa using hmem⟩)
      · exact .inr (.inl (List.mem_append_left _ h))
      · exact .inr (.inr h)
    dropped := fun t ht => by
      rcases List.mem_append.mp ht with ht | ht
      · exact hB.dropped t ht
      · exact ⟨p, hp, (hts t ht).1.symm, (hts t ht).2⟩
    pruned := hB.pruned }

theorem Fits.drop (h : Fits B l) {ts : List Tombstone}
    (hts : ∀ t ∈ ts, t.covers l = true → OfPurged B l) :
    Fits { B with
      erasures := B.erasures.filter fun t => t ∉ ts, dropped := B.dropped ++ ts } l :=
  ⟨fun t ht => (List.mem_append.mp ht).elim (h.1 t) (hts t), h.2⟩

/-- The bans that a retention run leaves. -/
def Bans.sweep (B : Bans) (cutoff : ℤ) : Bans :=
  { B with
    erasures := B.erasures.filter fun t => cutoff ≤ t.erasedAt
    storeFences := B.storeFences.filter fun f => cutoff ≤ f.purgedAt
    pruned := B.pruned ++ (B.storeFences.filter fun f => f.purgedAt < cutoff).map (·, cutoff)
    swept := some (max cutoff (B.swept.getD cutoff)) }

theorem Swept.sweep {ts : ℤ} (cutoff : ℤ) (h : Swept B ts) : Swept (B.sweep cutoff) ts := by
  obtain ⟨c, hc, hlt⟩ := h
  refine ⟨_, rfl, ?_⟩
  rw [hc]
  exact Int.lt_of_lt_of_le hlt (Int.le_max_right _ _)

theorem swept_of_lt {ts cutoff : ℤ} (h : ts < cutoff) : Swept (B.sweep cutoff) ts :=
  ⟨_, rfl, Int.lt_of_lt_of_le h (Int.le_max_left _ _)⟩

theorem History.sweep (hB : History B) (cutoff : ℤ) : History (B.sweep cutoff) where
  fence p hp := by
    rcases hB.fence p hp with ⟨f, hf, hs, hid⟩ | ⟨x, hx, hs, hid⟩
    · by_cases hle : cutoff ≤ f.purgedAt
      · exact .inl ⟨f, List.mem_filter.mpr ⟨hf, decide_eq_true hle⟩, hs, hid⟩
      · have hlt : f.purgedAt < cutoff := Int.not_le.mp hle
        have hmem : f ∈ B.storeFences.filter fun f => f.purgedAt < cutoff :=
          List.mem_filter.mpr ⟨hf, decide_eq_true hlt⟩
        exact .inr ⟨(f, cutoff), List.mem_append_right _ (List.mem_map_of_mem hmem), hs, hid⟩
    · exact .inr ⟨x, List.mem_append_left _ hx, hs, hid⟩
  bound p hp := by
    rcases hB.bound p hp with ⟨f, hf, hs, hle⟩ | h
    · by_cases hcut : cutoff ≤ f.purgedAt
      · exact .inl ⟨f, List.mem_filter.mpr ⟨hf, decide_eq_true hcut⟩, hs, hle⟩
      · exact .inr (swept_of_lt (Int.lt_of_le_of_lt hle (Int.not_le.mp hcut)))
    · exact .inr (h.sweep cutoff)
  tombstone t ht := by
    rcases hB.tombstone t ht with h | h | h
    · by_cases hcut : cutoff ≤ t.erasedAt
      · exact .inl (List.mem_filter.mpr ⟨h, decide_eq_true hcut⟩)
      · exact .inr (.inr (swept_of_lt (Int.not_le.mp hcut)))
    · exact .inr (.inl h)
    · exact .inr (.inr (h.sweep cutoff))
  dropped := hB.dropped
  pruned x hx := by
    refine ⟨_, rfl, ?_⟩
    rcases List.mem_append.mp hx with hx | hx
    · obtain ⟨c, hc, hle⟩ := hB.pruned x hx
      rw [hc]
      exact Int.le_trans hle (Int.le_max_right _ _)
    · obtain ⟨f, -, rfl⟩ := List.mem_map.mp hx
      exact Int.le_max_left _ _

theorem Fits.sweep (h : Fits B l) {cutoff : ℤ}
    (hl : ∀ f ∈ B.storeFences, f.purgedAt < cutoff → l.store = f.store →
      l.storeId = some f.storeId → l.ts < cutoff) : Fits (B.sweep cutoff) l := by
  refine ⟨h.1, fun x hx hs hid => ?_⟩
  rcases List.mem_append.mp hx with hx | hx
  · exact h.2 x hx hs hid
  · obtain ⟨f, hf, rfl⟩ := List.mem_map.mp hx
    obtain ⟨hf, hlt⟩ := List.mem_filter.mp hf
    exact hl f hf (of_decide_eq_true hlt) hs hid

/-! ## The invariant -/

/-- The lines that wait in a queue or in a batch. -/
def Waiting (queue : List Line) (batches : List Batch) (l : Line) : Prop :=
  l ∈ queue ∨ ∃ b ∈ batches, l ∈ b.lines

/-- What the rows of a batch have passed at its stage. -/
def BatchOk (B : Bans) (lastId : ℕ) (b : Batch) : Prop :=
  match b.stage with
  | .locked => True
  | .dated live => ∀ l ∈ live, l ∈ b.lines ∧ ¬ Swept B l.ts
  | .numbered live minId => (∀ l ∈ live, l ∈ b.lines ∧ ¬ Swept B l.ts) ∧ minId ≤ lastId
  | .copied rows minId => ∀ r ∈ rows, (r.toLine ∈ b.lines ∧ ¬ Swept B r.ts) ∧ minId < r.id
  | .filtered rows _ minId => ∀ r ∈ rows, ((r.toLine ∈ b.lines ∧ ¬ Swept B r.ts) ∧ minId < r.id) ∧
      ∀ t ∈ B.stamped, t.covers r.toLine = true → Fenced B r.toLine
  | .fenced rows _ => ∀ r ∈ rows, (∀ t ∈ B.stamped, ¬ t.covers r.toLine) ∧
      ∀ p ∈ B.fenced, ¬ p.covers r.toLine

/-- The delete of an erasure meets every row it has to. -/
def ErasingOk (B : Bans) (decisions : List Row) (e : Erasing) : Prop :=
  e.tombstone ∈ B.stamped ∧ ∀ doomed, e.doomed = some doomed →
    ∀ r ∈ decisions, e.tombstone.covers r.toLine = true → r ∈ doomed

/-- So do the deletes of a purge, which drops only tombstones of its store up to its bound. -/
def PurgingOk (B : Bans) (decisions : List Row) (x : Purging) : Prop :=
  x.purge ∈ B.fenced ∧
    (∀ doomed, x.doomed = some doomed → ∀ r ∈ decisions, x.purge.covers r.toLine = true →
      r ∈ doomed) ∧
    ∀ ts, x.tombstones = some ts → ∀ t ∈ ts, t.store = x.purge.store ∧ t.erasedAt ≤ x.purge.before

/-- No row of what has been erased or purged is in the table. -/
structure Final (erased : List Tombstone) (purged : List Purge) (decisions : List Row) : Prop where
  erased : ∀ t ∈ erased, ∀ r ∈ decisions, ¬ t.covers r.toLine
  purged : ∀ p ∈ purged, ∀ r ∈ decisions, ¬ p.covers r.toLine

variable {days : ℕ}

/-- The invariant of a run of orderly steps. -/
structure Inv (days : ℕ) (s : State) : Prop where
  exclusive : s.holder ≠ none → s.batches = []
  retaining : ∀ c, s.holder = some (.retain c) →
    0 < days ∧ ∀ cutoff, c = some cutoff → cutoff ≤ retentionCutoff days s.clock
  swept : ∀ c, s.bans.swept = some c → 0 < days ∧ c ≤ retentionCutoff days s.clock
  history : History s.bans
  fits : ∀ l, Waiting s.queue s.batches l → Fits s.bans l
  batches : ∀ b ∈ s.batches, BatchOk s.bans s.lastId b
  erasing : ∀ e ∈ s.erasing, ErasingOk s.bans s.decisions e
  purging : ∀ x ∈ s.purging, PurgingOk s.bans s.decisions x
  erased : ∀ t ∈ s.erased, t ∈ s.bans.stamped
  purged : ∀ p ∈ s.purged, p ∈ s.bans.fenced
  final : Final s.erased s.purged s.decisions

/-- **The step brings together no line and no dropped ban that do not fit.** A logger accepts a line
that fits what is gone; and when a purge drops tombstones or retention prunes fences, the lines that
wait fit what goes. -/
def Orderly (s : State) : Step → Prop
  | .decide line => Fits s.bans line
  | .returnPurge i => ∀ x ts, s.purging[i]? = some x → x.tombstones = some ts →
      ∀ l, Waiting s.queue s.batches l → ∀ t ∈ ts, t.covers l = true → OfPurged s.bans l
  | .commitRetain => ∀ cutoff, s.holder = some (.retain (some cutoff)) →
      ∀ l, Waiting s.queue s.batches l → ∀ f ∈ s.bans.storeFences, f.purgedAt < cutoff →
        l.store = f.store → l.storeId = some f.storeId → l.ts < cutoff
  | _ => True

theorem inv_init (clock : ℤ) : Inv days (.init clock) := by
  constructor <;> simp [State.init, Waiting]
  · constructor <;> simp
  · constructor <;> simp

theorem retentionCutoff_mono (days : ℕ) {a b : ℤ} (h : a ≤ b) :
    retentionCutoff days a ≤ retentionCutoff days b := by
  have hdiv : a / day ≤ b / day := Int.ediv_le_ediv (by decide) h
  have hmul : a / day * day ≤ b / day * day := Int.mul_le_mul_of_nonneg_right hdiv (by decide)
  unfold retentionCutoff
  omega

/-! ## Batches -/

section Batches

variable {s s' : State} {b b' : Batch} {i : ℕ}

theorem waiting_set {queue : List Line} {batches : List Batch} (hb : batches[i]? = some b)
    (hl : b'.lines = b.lines) (h : Waiting queue (batches.set i b') l) : Waiting queue batches l := by
  rcases h with h | ⟨c, hc, h⟩
  · exact .inl h
  · rcases List.mem_or_eq_of_mem_set hc with hc | rfl
    · exact .inr ⟨c, hc, h⟩
    · exact .inr ⟨b, List.mem_of_getElem? hb, hl ▸ h⟩

theorem waiting_erase {queue : List Line} {batches : List Batch} (hb : batches[i]? = some b)
    (h : Waiting (queue ++ b.lines) (batches.eraseIdx i) l) : Waiting queue batches l := by
  rcases h with h | ⟨c, hc, h⟩
  · rcases List.mem_append.mp h with h | h
    · exact .inl h
    · exact .inr ⟨b, List.mem_of_getElem? hb, h⟩
  · exact .inr ⟨c, List.mem_of_mem_eraseIdx hc, h⟩

theorem BatchOk.mono {lastId lastId' : ℕ} (h : BatchOk B lastId b) (hle : lastId ≤ lastId') :
    BatchOk B lastId' b := by
  cases hstage : b.stage <;> simp only [BatchOk, hstage] at h ⊢
  case numbered => exact ⟨h.1, Nat.le_trans h.2 hle⟩
  all_goals exact h

/-- A batch goes on to its next stage. -/
theorem Inv.setBatch (hI : Inv days s) (hb : s.batches[i]? = some b) (hl : b'.lines = b.lines)
    {lastId : ℕ} (hle : s.lastId ≤ lastId) (hok : BatchOk s.bans lastId b') :
    Inv days { s with lastId, batches := s.batches.set i b' } :=
  { hI with
    exclusive := fun h => by rw [hI.exclusive h, List.set_nil]
    fits := fun l h => hI.fits l (waiting_set hb hl h)
    batches := fun c hc => by
      rcases List.mem_or_eq_of_mem_set hc with hc | rfl
      · exact (hI.batches c hc).mono hle
      · exact hok }

/-- **What a batch has passed at its next stage.** -/
theorem batchOk_next (hI : Inv days s) (hb : b ∈ s.batches) {e : Step} {stage : Stage}
    (h : b.stage.next days s b e = some stage) :
    BatchOk s.bans s.lastId { b with stage } := by
  have hok := hI.batches b hb
  have hfits : ∀ l ∈ b.lines, Fits s.bans l := fun l hl => hI.fits l (.inr ⟨b, hb, hl⟩)
  unfold Stage.next at h
  unfold BatchOk at hok
  split at h <;> rename_i hstage
  · -- the age check: no later retention has run while the batch holds the lock
    obtain rfl := Option.some.inj h
    intro l hl
    obtain ⟨hmem, hage⟩ := List.mem_filter.mp hl
    refine ⟨hmem, fun ⟨c, hc, hlt⟩ => ?_⟩
    obtain ⟨hdays, hle⟩ := hI.swept c hc
    have := of_decide_eq_true hage
    omega
  · split at h
    · cases h
    · obtain rfl := Option.some.inj h
      exact ⟨by simpa only [hstage] using hok, Nat.le_refl _⟩
  · -- a row that no tombstone covers is fenced
    obtain rfl := Option.some.inj h
    simp only [hstage] at hok
    intro r hr
    obtain ⟨hmem, hnot⟩ := List.mem_filter.mp hr
    obtain ⟨⟨hline, hnew⟩, hid⟩ := hok r hmem
    refine ⟨⟨⟨hline, hnew⟩, hid⟩, fun t ht hcov => ?_⟩
    rcases heldBack_of_stamped hI.history ht hcov (hfits _ hline) with htomb | hfenced | hswept
    · simp [hid] at hnot
      exact absurd hcov (by simp [hnot t htomb])
    · exact hfenced
    · exact absurd hswept hnew
  · -- a row that no fence covers is not banned
    obtain rfl := Option.some.inj h
    simp only [hstage] at hok
    intro r hr
    obtain ⟨hmem, hnot⟩ := List.mem_filter.mp hr
    obtain ⟨⟨⟨hline, hnew⟩, hid⟩, htomb⟩ := hok r hmem
    have hunfenced : ¬ Fenced s.bans r.toLine := fun ⟨f, hf, hcov⟩ => by
      simp [hid] at hnot
      exact absurd hcov (by simp [hnot f hf])
    refine ⟨fun t ht hcov => hunfenced (htomb t ht hcov), fun p hp hcov => ?_⟩
    rcases heldBack_of_fenced hI.history hp hcov (hfits _ hline) with hfenced | hswept
    · exact hunfenced hfenced
    · exact hnew hswept
  · cases h

theorem inv_advance (hI : Inv days s) {e : Step} (h : advance days s i e = some s') :
    Inv days s' := by
  obtain ⟨b, hb, h⟩ := Option.bind_eq_some_iff.mp h
  obtain ⟨stage, hstage, h⟩ := Option.bind_eq_some_iff.mp h
  obtain rfl := Option.some.inj h
  exact hI.setBatch hb (by rfl) (Nat.le_refl _) (batchOk_next hI (List.mem_of_getElem? hb) hstage)

theorem inv_copy (hI : Inv days s) (h : step days s (.copy i) = some s') : Inv days s' := by
  obtain ⟨b, hb, h⟩ := Option.bind_eq_some_iff.mp h
  have hok := hI.batches b (List.mem_of_getElem? hb)
  unfold BatchOk at hok
  split at h <;> rename_i hstage
  · obtain rfl := Option.some.inj h
    rw [hstage] at hok
    refine hI.setBatch hb (by rfl) (Nat.le_add_right _ _) ?_
    intro r hr
    obtain ⟨⟨l, k⟩, hx, rfl⟩ := List.mem_map.mp hr
    have hmem := List.fst_mem_of_mem_zipIdx hx
    refine ⟨hok.1 l hmem, ?_⟩
    have := hok.2
    show _ < s.lastId + 1 + k
    omega
  · cases h

theorem mem_without {rows doomed : List Row} {r : Row} :
    r ∈ without rows doomed ↔ r ∈ rows ∧ r ∉ doomed := by
  simp [without]

/-- The table loses rows and gains rows that nothing bans. -/
theorem Inv.setDecisions (hI : Inv days s) {decisions : List Row} (h : ∀ r ∈ decisions,
      r ∈ s.decisions ∨ ((∀ t ∈ s.bans.stamped, ¬ t.covers r.toLine) ∧
        ∀ p ∈ s.bans.fenced, ¬ p.covers r.toLine)) :
    Inv days { s with decisions } :=
  { hI with
    erasing := fun e he => by
      obtain ⟨hmem, hdoomed⟩ := hI.erasing e he
      refine ⟨hmem, fun doomed hd r hr hcov => ?_⟩
      rcases h r hr with hr | hr
      · exact hdoomed doomed hd r hr hcov
      · exact absurd hcov (hr.1 _ hmem)
    purging := fun x hx => by
      obtain ⟨hmem, hdoomed, hts⟩ := hI.purging x hx
      refine ⟨hmem, fun doomed hd r hr hcov => ?_, hts⟩
      rcases h r hr with hr | hr
      · exact hdoomed doomed hd r hr hcov
      · exact absurd hcov (hr.2 _ hmem)
    final := by
      constructor
      · intro t ht r hr
        rcases h r hr with hr | hr
        · exact hI.final.erased t ht r hr
        · exact hr.1 t (hI.erased t ht)
      · intro p hp r hr
        rcases h r hr with hr | hr
        · exact hI.final.purged p hp r hr
        · exact hr.2 p (hI.purged p hp) }

theorem Inv.eraseBatch (hI : Inv days s) (hb : s.batches[i]? = some b) :
    Inv days { s with queue := s.queue ++ b.lines, batches := s.batches.eraseIdx i } :=
  { hI with
    exclusive := fun h => by rw [hI.exclusive h, List.eraseIdx_nil]
    fits := fun l h => hI.fits l (waiting_erase hb h)
    batches := fun c hc => hI.batches c (List.mem_of_mem_eraseIdx hc) }

/-- Lines may leave the queue. -/
theorem Inv.shrinkQueue (hI : Inv days s) {queue : List Line} (h : ∀ l ∈ queue, l ∈ s.queue) :
    Inv days { s with queue } :=
  { hI with fits := fun l hl => hI.fits l (hl.imp_left (h l)) }

theorem inv_commitBatch (hI : Inv days s) (h : step days s (.commitBatch i) = some s') :
    Inv days s' := by
  obtain ⟨b, hb, h⟩ := Option.bind_eq_some_iff.mp h
  have hout : Inv days { s with batches := s.batches.eraseIdx i } :=
    (hI.eraseBatch hb).shrinkQueue fun l hl => List.mem_append_left _ hl
  have hok := hI.batches b (List.mem_of_getElem? hb)
  unfold BatchOk at hok
  split at h <;> rename_i hstage
  · obtain rfl := Option.some.inj h
    exact hout
  · obtain rfl := Option.some.inj h
    rw [hstage] at hok
    refine hout.setDecisions fun r hr => ?_
    rcases List.mem_append.mp hr with hr | hr
    · exact .inl (mem_without.mp hr).1
    · exact .inr (hok r hr)
  · cases h

theorem inv_beginBatch (hI : Inv days s) {lines : List Line}
    (h : step days s (.beginBatch lines) = some s') : Inv days s' := by
  simp only [step] at h
  split_ifs at h with hguard
  obtain rfl := Option.some.inj h
  refine { hI with
    exclusive := fun h => absurd hguard.1 h
    fits := fun l hl => hI.fits l ?_
    batches := fun c hc => ?_ }
  · rcases hl with hl | ⟨c, hc, hl⟩
    · exact .inl (List.diff_subset _ _ hl)
    · rcases List.mem_append.mp hc with hc | hc
      · exact .inr ⟨c, hc, hl⟩
      · obtain rfl := List.mem_singleton.mp hc
        exact .inl (hguard.2 l hl)
  · rcases List.mem_append.mp hc with hc | hc
    · exact hI.batches c hc
    · obtain rfl := List.mem_singleton.mp hc
      trivial

end Batches

/-! ## The exclusive lock -/

section Exclusive

variable {s s' : State} {i : ℕ}

theorem inv_lock (hI : Inv days s) {h : Holder} (hlock : lock s h = some s')
    (hretain : ∀ c, h = .retain c → 0 < days ∧ c = none) : Inv days s' := by
  unfold lock at hlock
  split_ifs at hlock with hfree
  obtain rfl := Option.some.inj hlock
  exact { hI with
    exclusive := fun _ => hfree.2
    retaining := fun c hc => by
      obtain ⟨hdays, rfl⟩ := hretain c (Option.some.inj hc)
      exact ⟨hdays, nofun⟩ }

/-- The bans change while no batch runs. -/
theorem Inv.setBans (hI : Inv days s) (hbatches : s.batches = []) {B : Bans} (hB : History B)
    (hswept : ∀ c, B.swept = some c → 0 < days ∧ c ≤ retentionCutoff days s.clock)
    (hfits : ∀ l, Waiting s.queue s.batches l → Fits B l)
    (hstamped : ∀ t ∈ s.bans.stamped, t ∈ B.stamped) (hfenced : ∀ p ∈ s.bans.fenced, p ∈ B.fenced) :
    Inv days { s with holder := none, bans := B } :=
  { hI with
    exclusive := fun _ => hbatches
    retaining := nofun
    swept := hswept
    history := hB
    fits := hfits
    batches := fun b hb => by
      rw [hbatches] at hb
      exact absurd hb List.not_mem_nil
    erasing := fun e he => ⟨hstamped _ (hI.erasing e he).1, (hI.erasing e he).2⟩
    purging := fun x hx => ⟨hfenced _ (hI.purging x hx).1, (hI.purging x hx).2⟩
    erased := fun t ht => hstamped t (hI.erased t ht)
    purged := fun p hp => hfenced p (hI.purged p hp) }

/-- An erasure commits its tombstone. -/
theorem inv_commitErase (hI : Inv days s) (h : step days s .commitErase = some s') :
    Inv days s' := by
  simp only [step] at h
  split at h <;> rename_i hholder
  · rename_i store subject stamp
    obtain rfl := Option.some.inj h
    have hbatches := hI.exclusive (by rw [hholder]; exact nofun)
    have hset := hI.setBans hbatches
      (hI.history.stamp ⟨store, subject, stamp⟩) hI.swept hI.fits
      (fun t ht => List.mem_append_left _ ht) fun p hp => hp
    exact { hset with
      erasing := fun e he => by
        rcases List.mem_append.mp he with he | he
        · exact hset.erasing e he
        · obtain rfl := List.mem_singleton.mp he
          exact ⟨List.mem_append_right _ (List.mem_singleton_self _), nofun⟩ }
  · cases h

/-- A purge commits its fences. -/
theorem inv_commitPurge (hI : Inv days s) (h : step days s .commitPurge = some s') :
    Inv days s' := by
  simp only [step] at h
  split at h <;> rename_i hholder
  · rename_i p
    obtain rfl := Option.some.inj h
    have hbatches := hI.exclusive (by rw [hholder]; exact nofun)
    have hset := hI.setBans hbatches (hI.history.fenceOff p)
      hI.swept (fun l hl => (hI.fits l hl).fenceOff p) (fun t ht => ht)
      fun q hq => List.mem_append_left _ hq
    exact { hset with
      purging := fun x hx => by
        rcases List.mem_append.mp hx with hx | hx
        · exact hset.purging x hx
        · obtain rfl := List.mem_singleton.mp hx
          exact ⟨List.mem_append_right _ (List.mem_singleton_self _), nofun, nofun⟩ }
  · cases h

/-- **A retention run drops and prunes what is past its cutoff.** -/
theorem inv_commitRetain (hI : Inv days s) (hok : Orderly s .commitRetain)
    (h : step days s .commitRetain = some s') : Inv days s' := by
  simp only [step] at h
  split at h <;> rename_i hholder
  · rename_i cutoff
    obtain rfl := Option.some.inj h
    have hbatches := hI.exclusive (by rw [hholder]; exact nofun)
    obtain ⟨hdays, hcut⟩ := hI.retaining _ hholder
    refine (hI.setBans hbatches (hI.history.sweep cutoff)
      (fun c hc => ⟨hdays, ?_⟩) (fun l hl => (hI.fits l hl).sweep (hok cutoff hholder l hl))
      (fun t ht => ht) fun p hp => hp).setDecisions fun r hr => .inl (List.mem_filter.mp hr).1
    -- no cutoff so far is past the one of the clock
    obtain rfl := Option.some.inj hc
    refine Int.max_le.mpr ⟨hcut cutoff rfl, ?_⟩
    cases hswept : s.bans.swept with
    | none => exact hcut cutoff rfl
    | some c => exact (hI.swept c hswept).2
  · cases h

/-- An erasure has deleted its rows. -/
theorem inv_returnErase (hI : Inv days s) (h : step days s (.returnErase i) = some s') :
    Inv days s' := by
  obtain ⟨e, he, h⟩ := Option.bind_eq_some_iff.mp h
  obtain ⟨doomed, hdoomed, h⟩ := Option.bind_eq_some_iff.mp h
  obtain rfl := Option.some.inj h
  have hset : Inv days { s with decisions := without s.decisions doomed } :=
    hI.setDecisions fun r hr => .inl (mem_without.mp hr).1
  obtain ⟨hmem, hrows⟩ := hI.erasing e (List.mem_of_getElem? he)
  exact { hset with
    erasing := fun e' he' => hset.erasing e' (List.mem_of_mem_eraseIdx he')
    erased := fun t ht => by
      rcases List.mem_append.mp ht with ht | ht
      · exact hset.erased t ht
      · obtain rfl := List.mem_singleton.mp ht
        exact hmem
    final := ⟨fun t ht r hr => by
      rcases List.mem_append.mp ht with ht | ht
      · exact hset.final.erased t ht r hr
      · obtain rfl := List.mem_singleton.mp ht
        obtain ⟨hr, hnot⟩ := mem_without.mp hr
        exact fun hcov => hnot (hrows doomed hdoomed r hr hcov), hset.final.purged⟩ }

/-- **A purge has deleted its rows, and drops the tombstones it has read.** -/
theorem inv_returnPurge (hI : Inv days s) (hok : Orderly s (.returnPurge i))
    (h : step days s (.returnPurge i) = some s') : Inv days s' := by
  obtain ⟨x, hx, h⟩ := Option.bind_eq_some_iff.mp h
  obtain ⟨doomed, hdoomed, h⟩ := Option.bind_eq_some_iff.mp h
  obtain ⟨ts, hts, h⟩ := Option.bind_eq_some_iff.mp h
  obtain rfl := Option.some.inj h
  have hset : Inv days { s with decisions := without s.decisions doomed } :=
    hI.setDecisions fun r hr => .inl (mem_without.mp hr).1
  obtain ⟨hmem, hrows, hread⟩ := hI.purging x (List.mem_of_getElem? hx)
  exact { hset with
    history := hI.history.drop hmem (hread ts hts)
    fits := fun l hl => (hI.fits l hl).drop (hok x ts hx hts l hl)
    purging := fun x' hx' => hset.purging x' (List.mem_of_mem_eraseIdx hx')
    purged := fun p hp => by
      rcases List.mem_append.mp hp with hp | hp
      · exact hset.purged p hp
      · obtain rfl := List.mem_singleton.mp hp
        exact hmem
    final := ⟨hset.final.erased, fun p hp r hr => by
      rcases List.mem_append.mp hp with hp | hp
      · exact hset.final.purged p hp r hr
      · obtain rfl := List.mem_singleton.mp hp
        obtain ⟨hr, hnot⟩ := mem_without.mp hr
        exact fun hcov => hnot (hrows doomed hdoomed r hr hcov)⟩ }

/-- An erasure's delete reads its rows. -/
theorem inv_readErased (hI : Inv days s) (h : step days s (.readErased i) = some s') :
    Inv days s' := by
  obtain ⟨e, he, h⟩ := Option.bind_eq_some_iff.mp h
  obtain rfl := Option.some.inj h
  refine { hI with erasing := fun e' he' => ?_ }
  rcases List.mem_or_eq_of_mem_set he' with he' | rfl
  · exact hI.erasing e' he'
  · refine ⟨(hI.erasing e (List.mem_of_getElem? he)).1, fun doomed hd r hr hcov => ?_⟩
    obtain rfl := Option.some.inj hd
    obtain ⟨hstore, -, hnames⟩ := Tombstone.covers_iff.mp hcov
    exact List.mem_filter.mpr ⟨hr, decide_eq_true ⟨hstore, hnames⟩⟩

/-- A purge's deletes read their rows and tombstones. -/
theorem Inv.setPurging (hI : Inv days s) {x x' : Purging} (hx : s.purging[i]? = some x)
    (hok : PurgingOk s.bans s.decisions x → PurgingOk s.bans s.decisions x') :
    Inv days { s with purging := s.purging.set i x' } := by
  refine { hI with purging := fun y hy => ?_ }
  rcases List.mem_or_eq_of_mem_set hy with hy | rfl
  · exact hI.purging y hy
  · exact hok (hI.purging x (List.mem_of_getElem? hx))

theorem inv_readPurged (hI : Inv days s) (h : step days s (.readPurged i) = some s') :
    Inv days s' := by
  obtain ⟨x, hx, h⟩ := Option.bind_eq_some_iff.mp h
  obtain rfl := Option.some.inj h
  refine hI.setPurging hx fun ⟨hmem, _, hts⟩ => ⟨hmem, fun doomed hd r hr hcov => ?_, hts⟩
  obtain rfl := Option.some.inj hd
  exact List.mem_filter.mpr ⟨hr, hcov⟩

theorem inv_readTombstones (hI : Inv days s) (h : step days s (.readTombstones i) = some s') :
    Inv days s' := by
  obtain ⟨x, hx, h⟩ := Option.bind_eq_some_iff.mp h
  obtain ⟨doomed, -, h⟩ := Option.bind_eq_some_iff.mp h
  obtain rfl := Option.some.inj h
  refine hI.setPurging hx fun ⟨hmem, hrows, _⟩ => ⟨hmem, hrows, fun ts hts t ht => ?_⟩
  obtain rfl := Option.some.inj hts
  exact of_decide_eq_true (List.mem_filter.mp ht).2

/-- A transaction that holds the lock stamps, reads its cutoff, or is rolled back. -/
theorem Inv.setHolder (hI : Inv days s) {holder : Option Holder}
    (hheld : holder ≠ none → s.holder ≠ none)
    (hretain : ∀ c, holder = some (.retain c) →
      0 < days ∧ ∀ cutoff, c = some cutoff → cutoff ≤ retentionCutoff days s.clock) :
    Inv days { s with holder } :=
  { hI with exclusive := fun h => hI.exclusive (hheld h), retaining := hretain }

theorem inv_stampErase (hI : Inv days s) (h : step days s .stampErase = some s') :
    Inv days s' := by
  simp only [step] at h
  split at h <;> rename_i hholder
  · obtain rfl := Option.some.inj h
    exact hI.setHolder (fun _ => by rw [hholder]; exact nofun) nofun
  · cases h

theorem inv_readCutoff (hI : Inv days s) (h : step days s .readCutoff = some s') :
    Inv days s' := by
  simp only [step] at h
  split at h <;> rename_i hholder
  · obtain rfl := Option.some.inj h
    refine hI.setHolder (fun _ => by rw [hholder]; exact nofun) fun c hc => ?_
    refine ⟨(hI.retaining _ hholder).1, fun cutoff hcut => ?_⟩
    obtain rfl := Holder.retain.inj (Option.some.inj hc)
    obtain rfl := Option.some.inj hcut
    exact Int.le_refl _
  · cases h

theorem inv_release (hI : Inv days s) (h : step days s .release = some s') : Inv days s' := by
  simp only [step] at h
  split_ifs at h
  obtain rfl := Option.some.inj h
  exact hI.setHolder (fun h => absurd rfl h) nofun

theorem inv_tick (hI : Inv days s) {clock : ℤ} (h : step days s (.tick clock) = some s') :
    Inv days s' := by
  simp only [step] at h
  split_ifs at h with hle
  obtain rfl := Option.some.inj h
  have hmono := retentionCutoff_mono days hle
  exact { hI with
    retaining := fun c hc => ⟨(hI.retaining c hc).1, fun cutoff hcut =>
      Int.le_trans ((hI.retaining c hc).2 cutoff hcut) hmono⟩
    swept := fun c hc => ⟨(hI.swept c hc).1, Int.le_trans (hI.swept c hc).2 hmono⟩ }

end Exclusive

/-! ## Runs -/

/-- A step that brings together only what fits keeps the invariant. -/
theorem inv_step {s s' : State} {e : Step} (hI : Inv days s) (hok : Orderly s e)
    (h : step days s e = some s') : Inv days s' := by
  cases e with
  | tick clock => exact inv_tick hI h
  | decide line =>
    obtain rfl := Option.some.inj h
    refine { hI with fits := fun l hl => ?_ }
    rcases hl with hl | hl
    · rcases List.mem_append.mp hl with hl | hl
      · exact hI.fits l (.inl hl)
      · exact List.mem_singleton.mp hl ▸ hok
    · exact hI.fits l (.inr hl)
  | beginBatch lines => exact inv_beginBatch hI h
  | checkAge i => exact inv_advance hI h
  | readId i => exact inv_advance hI h
  | copy i => exact inv_copy hI h
  | applyErasures i => exact inv_advance hI h
  | applyFences i => exact inv_advance hI h
  | commitBatch i => exact inv_commitBatch hI h
  | abortBatch i =>
    obtain ⟨b, hb, h⟩ := Option.bind_eq_some_iff.mp h
    obtain rfl := Option.some.inj h
    exact hI.eraseBatch hb
  | lockErase store subject => exact inv_lock hI h nofun
  | stampErase => exact inv_stampErase hI h
  | commitErase => exact inv_commitErase hI h
  | readErased i => exact inv_readErased hI h
  | returnErase i => exact inv_returnErase hI h
  | lockPurge p => exact inv_lock hI h nofun
  | commitPurge => exact inv_commitPurge hI h
  | readPurged i => exact inv_readPurged hI h
  | readTombstones i => exact inv_readTombstones hI h
  | returnPurge i => exact inv_returnPurge hI hok h
  | lockRetain =>
    simp only [step] at h
    split_ifs at h with hdays
    refine inv_lock hI h fun c hc => ⟨Nat.pos_of_ne_zero hdays, ?_⟩
    exact (Holder.retain.inj hc).symm
  | readCutoff => exact inv_readCutoff hI h
  | commitRetain => exact inv_commitRetain hI hok h
  | release => exact inv_release hI h

/-- **Erasures and purges are final.** In a run that brings together no line and no dropped ban that do
not fit, whatever has been erased or purged has no row in the table, in any state reached. -/
theorem erasure_final {days : ℕ} {clock : ℤ} {es : List Step} {s : State}
    (hok : Along (step days) Orderly (.init clock) es)
    (h : run (step days) (.init clock) es = some s) : Final s.erased s.purged s.decisions :=
  (Along.run (fun _ _ _ hI hok h => inv_step hI hok h) hok (inv_init clock) h).final

/-- A line of the first incarnation of a store about a subject. -/
def aliceLine : Line := ⟨5, "docs", some 1, some "user", some "alice", none, none⟩

/-- The erasure of the subject, after the decision. -/
def aliceErased : Tombstone := ⟨"docs", ⟨"user", "alice"⟩, 10⟩

/-- The line waits while its subject is erased; its batch is inserted before the erasure's delete. -/
def flushedLate : List Step :=
  [.decide aliceLine, .lockErase "docs" ⟨"user", "alice"⟩, .stampErase, .commitErase,
    .beginBatch [aliceLine], .checkAge 0, .readId 0, .copy 0, .applyErasures 0, .applyFences 0,
    .commitBatch 0, .readErased 0, .returnErase 0]

theorem along_flushedLate : Along (step 30) Orderly (.init 10) flushedLate :=
  ⟨⟨nofun, nofun⟩, fun _ _ =>
    (@along_of_forall _ _ _ (fun e => ∀ s, Orderly s e) _ _
      (by simp only [List.forall_mem_cons, Orderly, implies_true, List.not_mem_nil, false_imp_iff, and_self])).mono
      fun s _ h => h s⟩

/-- The late line is dropped. -/
theorem erasure_final_flushedLate : Final [aliceErased] [] ([] : List Row) :=
  @erasure_final 30 10 flushedLate
    ⟨10, 1, [], [], none, [], [], [], ⟨[aliceErased], [], [aliceErased], [], [], [], none⟩,
      [aliceErased], []⟩ along_flushedLate rfl

/-! ## A store deleted twice -/

/-- The line waits while its subject is erased, the store is deleted with its log kept, created again and
deleted with its log purged; then its batch is inserted. -/
def reincarnation : List Step :=
  [.decide aliceLine,
    .lockErase "docs" ⟨"user", "alice"⟩, .stampErase, .commitErase, .readErased 0, .returnErase 0,
    .tick 30, .lockPurge ⟨"docs", 2, 20⟩, .commitPurge, .readPurged 0, .readTombstones 0,
    .returnPurge 0,
    .beginBatch [aliceLine], .checkAge 0, .readId 0, .copy 0, .applyErasures 0, .applyFences 0,
    .commitBatch 0]

/-- **A purge of the next incarnation lets an erased line in.** -/
theorem reincarnation_resurfaces : ∃ s, run (step 30) (.init 10) reincarnation = some s ∧
    aliceErased ∈ s.erased ∧ ⟨aliceLine, 1⟩ ∈ s.decisions ∧ aliceErased.covers aliceLine = true :=
  ⟨⟨30, 1, [], [], none, [], [], [⟨aliceLine, 1⟩],
    ⟨[], [⟨"docs", 2, 20⟩, ⟨"docs", 0, 20⟩], [aliceErased], [⟨"docs", 2, 20⟩], [aliceErased], [], none⟩,
    [aliceErased], [⟨"docs", 2, 20⟩]⟩, rfl, by simp, by simp, by decide⟩

end PgAuthz.DecisionLog.Barrier
