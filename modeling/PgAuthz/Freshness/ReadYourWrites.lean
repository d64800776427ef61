import PgAuthz.Freshness.Admission

/-!
# Reading one's own writes

A token covers what its timeline has logged before its position. The write that is answered with a
token is covered by it if the token was minted on the server of the write, and a read that is admitted
for a token sees all that is covered if it is decided on the server that admitted it. The code has
neither of the two: mint and query run on whatever server the pool has by then.

## Main definitions

* `Earlier`: a token's position lies on the history of another one
* `ReadYourWrites`: an admitted read sees the writes of its token and of earlier ones
* `NoTokenWithoutWrite`: a token covers the write it answers
* `Inv`: what calm steps keep

## Main results

* `inv_step`: a calm step keeps the invariant
* `reads_writes_along`: both hold in every state that calm steps lead to
-/

namespace PgAuthz.Freshness

open Replication Transition

section Runs

variable {I N : Type}

/-- The position of `t'` lies on the history of `t`, at the position of `t` or before it. -/
def Earlier (c : Cluster N Record) (t' t : Token) : Prop :=
  (c.line t'.epoch).take t'.lsn <+: (c.line t.epoch).take t.lsn

/-- A token of the same timeline with a smaller position is an earlier one. -/
theorem earlier_of_le {c : Cluster N Record} {t' t : Token} (he : t'.epoch = t.epoch) (hle : t'.lsn ≤ t.lsn) :
    Earlier c t' t := by
  unfold Earlier
  rw [he]
  exact List.take_prefix_take_left hle

/-- **Every read that was admitted for a token sees every write whose answer carried that token or an
earlier one.** -/
def ReadYourWrites (s : State I N) : Prop :=
  ∀ d ∈ s.served, ∀ a ∈ d.1, ∀ w ∈ s.responses, Earlier s.cluster w.2 a.1 → some w.1 ∈ d.2

/-- The write is logged on the timeline of the token, before its position. -/
def Minted (c : Cluster N Record) (w : ℕ × Token) : Prop :=
  w.2.lsn ≤ (c.line w.2.epoch).length ∧ some w.1 ∈ (c.line w.2.epoch).take w.2.lsn

/-- **No token is minted for a write that is absent from the timeline and position it names.** -/
def NoTokenWithoutWrite (s : State I N) : Prop := ∀ w ∈ s.responses, Minted s.cluster w

/-- An assertion has seen a timeline that the server's log follows: up to the position it has seen, or up
to the position it will see. -/
def Sound (c : Cluster N Record) (σ : Server Record) (p : Probe) : Prop :=
  ∀ e, p.timeline = some e → Replication.Covered c e (p.position.getD σ.replayed) σ.log ∧
    (p.position = none → σ.standby = true → σ.timeline = e)

/-- The servers that admitted a read have everything that its tokens cover, and a running assertion is
sound. -/
structure ReadSound (c : Cluster N Record) (r : Read I N) : Prop where
  admitted : ∀ a ∈ r.admitted, Replication.Covered c a.1.epoch a.1.lsn (c.server a.2).log
  stage : ∀ t p n pr, r.stage = .asserting t p n pr → Sound c (c.server n) pr

/-- What calm steps keep. -/
structure Inv (s : State I N) : Prop where
  cluster : WellFormed s.cluster
  pending : ∀ w ∈ s.pending, some w.id ∈ (s.cluster.server w.server).log
  responses : NoTokenWithoutWrite s
  reads : ∀ r ∈ s.reads, ReadSound s.cluster r
  served : ∀ d ∈ s.served, ∀ a ∈ d.1, Replication.Covered s.cluster a.1.epoch a.1.lsn d.2

theorem Inv.readYourWrites {s : State I N} (h : Inv s) : ReadYourWrites s := by
  intro d hd a ha w hw hearlier
  have hmem : some w.1 ∈ (s.cluster.line a.1.epoch).take a.1.lsn := hearlier.subset (h.responses w hw).2
  exact (h.served d hd a ha).logged.subset hmem

/-! ## Verdicts -/

section Verdicts

variable {c : Cluster N Record} {n : N} {p : Probe} {t : Token}

/-- The first look of an assertion is sound. -/
theorem sound_probe (hc : WellFormed c) : Sound c (c.server n) (probe (c.server n)) := by
  intro e he
  unfold probe at he ⊢
  by_cases hn : (c.server n).standby = true
  · rw [if_pos hn] at he ⊢
    obtain ⟨-, he⟩ := Option.ite_none_right_eq_some.mp he
    obtain rfl := Option.some.inj he
    exact ⟨hc.covered rfl (hc.fits n).replayed_le, fun _ _ => rfl⟩
  · rw [if_neg hn] at he ⊢
    obtain rfl := Option.some.inj he
    exact ⟨hc.covered rfl le_rfl, fun hpos => nomatch hpos⟩

/-- **A server that is found fresh has everything that the token covers.** -/
theorem covered_of_fresh (hp : Sound c (c.server n) p) (h : assertFresh (c.server n) p t = .fresh) :
    Replication.Covered c t.epoch t.lsn (c.server n).log := by
  obtain ⟨htimeline, pos, hpos, hle⟩ := fresh_iff.mp h
  obtain rfl := Option.some.inj hpos
  exact (hp t.epoch htimeline).1.of_le hle

/-- The token of a primary covers what the primary has logged. -/
theorem minted_of_freshnessToken (hc : WellFormed c) {id : ℕ} (hid : some id ∈ (c.server n).log)
    (h : freshnessToken (c.server n) = some t) : Minted c (id, t) := by
  obtain ⟨hn, h⟩ := Option.ite_none_left_eq_some.mp h
  obtain rfl := Option.some.inj h
  have hlog := (hc.fits n).primary (Bool.eq_false_iff.mpr hn)
  refine ⟨(congrArg List.length hlog).le, ?_⟩
  show some id ∈ (c.line (c.server n).timeline).take (c.server n).log.length
  rw [hlog] at hid
  rw [hlog, List.take_length]
  exact hid

end Verdicts

/-! ## Moves of the servers -/

section Moves

variable {c c' : Cluster N Record} {m : Move N Record}

theorem Minted.mono {w : ℕ × Token} (h : Minted c w) (hgrown : Grown c c') : Minted c' w := by
  refine ⟨h.1.trans (hgrown.line _).length_le, ?_⟩
  rw [take_of_isPrefix (hgrown.line _) h.1]
  exact h.2

variable [DecidableEq N]

/-- A move keeps an assertion sound, if it takes no server of an assertion to another timeline. -/
theorem Sound.move (hc : WellFormed c) (hm : Replication.move c m = some c') {n : N} {p : Probe}
    (h : Sound c (c.server n) p) (hswitch : ∀ t', m = .follow n t' → ∀ e ∈ p.timeline, e = t') :
    Sound c' (c'.server n) p := by
  intro e he
  obtain ⟨hcovered, hstandby⟩ := h e he
  have hgrown := grown_of_move hc hm
  have htimeline : p.position = none → (c'.server n).standby = true → (c'.server n).timeline = e := by
    intro hpos hn
    obtain ⟨hn, hsame | hfollow⟩ := standby_of_move hm hn
    · rw [hsame]
      exact hstandby hpos hn
    · exact (hswitch _ hfollow e he).symm
  refine ⟨?_, htimeline⟩
  cases hpos : p.position with
  | some pos =>
    rw [hpos] at hcovered
    exact hcovered.mono hgrown (hgrown.log n)
  | none =>
    rw [hpos] at hcovered
    -- a standby has come to where it is on the timeline that it has told
    by_cases hn : (c'.server n).standby = true
    · have hc' := move_wellFormed c m c' hc hm
      exact hc'.covered (htimeline hpos hn) (hc'.fits n).replayed_le
    · have hsame := replayed_of_move hm (Bool.eq_false_iff.mpr hn)
      rw [Option.getD_none] at hcovered ⊢
      rw [hsame]
      exact hcovered.mono hgrown (hgrown.log n)

theorem ReadSound.move (hc : WellFormed c) (hm : Replication.move c m = some c') {r : Read I N}
    (h : ReadSound c r) (hswitch : ∀ n t', m = .follow n t' → r.stage.Follows n t') : ReadSound c' r := by
  have hgrown := grown_of_move hc hm
  refine ⟨fun a ha => (h.admitted a ha).mono hgrown (hgrown.log a.2), fun t p n pr hstage => ?_⟩
  refine (h.stage t p n pr hstage).move hc hm fun t' hfollow => ?_
  have hfollows := hswitch n t' hfollow
  rw [hstage] at hfollows
  exact hfollows rfl

theorem Inv.move {s : State I N} (hs : Inv s) (hm : Replication.move s.cluster m = some c')
    (hswitch : ∀ n t', m = .follow n t' → ∀ r ∈ s.reads, r.stage.Follows n t') :
    Inv { s with cluster := c' } := by
  have hgrown := grown_of_move hs.cluster hm
  refine ⟨move_wellFormed s.cluster m c' hs.cluster hm, fun w hw => ?_, fun w hw => ?_, fun r hr => ?_,
    fun d hd a ha => ?_⟩
  · exact (hgrown.log w.server).subset (hs.pending w hw)
  · exact (hs.responses w hw).mono hgrown
  · exact (hs.reads r hr).move hs.cluster hm fun n t' hfollow => hswitch n t' hfollow r hr
  · exact (hs.served d hd a ha).mono hgrown List.prefix_rfl

end Moves

/-! ## Steps -/

section Steps

variable {s s' : State I N} {fallback : I → Bool}

theorem Inv.setRead (hs : Inv s) {k : ℕ} {r : Read I N} (hr : ReadSound s.cluster r) :
    Inv (s.setRead k r) := by
  refine ⟨hs.cluster, hs.pending, hs.responses, fun r' hr' => ?_, hs.served⟩
  rcases List.mem_or_eq_of_mem_set hr' with hr' | rfl
  · exact hs.reads r' hr'
  · exact hr

theorem Inv.startAssert (hs : Inv s) {k : ℕ} {r : Read I N} (hr : r ∈ s.reads) (t : Token) (p : Pool) :
    Inv (s.startAssert k r t p) := by
  refine hs.setRead ⟨(hs.reads r hr).admitted, fun t' p' n pr hstage => ?_⟩
  obtain ⟨-, -, rfl, rfl⟩ := Stage.asserting.inj hstage
  exact sound_probe hs.cluster

variable [DecidableEq I] [DecidableEq N]

theorem inv_commit (hs : Inv s) {i : I} (h : step fallback s (.commit i) = some s') : Inv s' := by
  obtain ⟨c, hm, rfl⟩ := Option.map_eq_some_iff.mp h
  have hmoved := hs.move hm fun n t' hfollow => nomatch hfollow
  refine ⟨hmoved.cluster, fun w hw => ?_, hmoved.responses, hmoved.reads, hmoved.served⟩
  rcases List.mem_append.mp hw with hw | hw
  · exact hmoved.pending w hw
  · obtain rfl := List.mem_singleton.mp hw
    rw [server_of_move hm]
    simp [Move.actor, Cluster.acted, Server.append]

theorem inv_mint (hs : Inv s) {k : ℕ} (hcalm : MintedAtHome s (.mint k))
    (h : step fallback s (.mint k) = some s') : Inv s' := by
  obtain ⟨w, hw, rfl⟩ := Option.map_eq_some_iff.mp h
  refine ⟨hs.cluster, fun v hv => hs.pending v (List.mem_of_mem_eraseIdx hv), fun a ha => ?_, hs.reads,
    hs.served⟩
  rcases List.mem_append.mp ha with ha | ha
  · exact hs.responses a ha
  · obtain ⟨t, ht, rfl⟩ := Option.map_eq_some_iff.mp (Option.mem_toList.mp ha)
    rw [hcalm w hw] at ht
    exact minted_of_freshnessToken hs.cluster (hs.pending w (List.mem_of_getElem? hw)) ht

theorem inv_verdict (hs : Inv s) {k : ℕ} (h : step fallback s (.verdict k) = some s') : Inv s' := by
  obtain ⟨r, hr, h⟩ := Option.bind_eq_some_iff.mp h
  have hread := hs.reads r (List.mem_of_getElem? hr)
  split at h
  · rename_i t p n pr hstage
    split at h
    · rename_i hfresh
      obtain rfl := Option.some.inj h
      refine hs.setRead ⟨fun a ha => ?_, fun _ _ _ _ hidle => nomatch hidle⟩
      rcases List.mem_append.mp ha with ha | ha
      · exact hread.admitted a ha
      · obtain rfl := List.mem_singleton.mp ha
        exact covered_of_fresh (hread.stage t p n pr hstage) hfresh
    · split at h
      · obtain rfl := Option.some.inj h
        exact hs.setRead ⟨hread.admitted, fun _ _ _ _ hdeclined => nomatch hdeclined⟩
      · obtain rfl := Option.some.inj h
        exact ⟨hs.cluster, hs.pending, hs.responses,
          fun r' hr' => hs.reads r' (List.mem_of_mem_eraseIdx hr'), hs.served⟩
  · cases h

theorem inv_query (hs : Inv s) {k : ℕ} (hcalm : DecidedWhereAsserted s (.query k))
    (h : step fallback s (.query k) = some s') : Inv s' := by
  obtain ⟨r, hr, h⟩ := Option.bind_eq_some_iff.mp h
  have hread := hs.reads r (List.mem_of_getElem? hr)
  split at h
  · obtain rfl := Option.some.inj h
    refine ⟨hs.cluster, hs.pending, hs.responses, hs.reads, fun d hd a ha => ?_⟩
    rcases List.mem_append.mp hd with hd | hd
    · exact hs.served d hd a ha
    · obtain rfl := List.mem_singleton.mp hd
      show Replication.Covered s.cluster _ _ (s.cluster.server (s.pool r.home r.readPool)).log
      rw [hcalm r hr a ha]
      exact hread.admitted a ha
  · cases h

/-- **A calm step keeps the invariant.** -/
theorem inv_step (hs : Inv s) {e : Event I N} (hcalm : Calm s e) (h : step fallback s e = some s') : Inv s' := by
  cases e with
  | server m =>
    obtain ⟨-, h⟩ := Option.ite_none_right_eq_some.mp h
    obtain ⟨c, hm, rfl⟩ := Option.map_eq_some_iff.mp h
    refine hs.move hm fun n t' hfollow => ?_
    subst hfollow
    exact hcalm.switch
  | reconnect i p n =>
    obtain rfl := Option.some.inj h
    exact ⟨hs.cluster, hs.pending, hs.responses, hs.reads, hs.served⟩
  | commit i => exact inv_commit hs h
  | mint k => exact inv_mint hs hcalm.mint h
  | arrive i noCache =>
    obtain rfl := Option.some.inj h
    refine ⟨hs.cluster, hs.pending, hs.responses, fun r hr => ?_, hs.served⟩
    rcases List.mem_append.mp hr with hr | hr
    · exact hs.reads r hr
    · obtain rfl := List.mem_singleton.mp hr
      exact ⟨fun a ha => absurd ha List.not_mem_nil, fun _ _ _ _ hidle => nomatch hidle⟩
  | assertFresh k t =>
    obtain ⟨r, hr, h⟩ := Option.bind_eq_some_iff.mp h
    split at h
    · obtain rfl := Option.some.inj h
      exact hs.startAssert (List.mem_of_getElem? hr) t .read
    · cases h
  | assertFreshPrimary k =>
    obtain ⟨r, hr, h⟩ := Option.bind_eq_some_iff.mp h
    split at h
    · rename_i t _
      obtain rfl := Option.some.inj h
      exact hs.startAssert (List.mem_of_getElem? hr) t .primary
    · cases h
  | verdict k => exact inv_verdict hs h
  | query k => exact inv_query hs hcalm.query h

/-- The logs of the servers only grow. -/
theorem grown_of_step (hs : WellFormed s.cluster) {e : Event I N}
    (h : step fallback s e = some s') : Grown s.cluster s'.cluster := by
  cases e with
  | server m =>
    obtain ⟨-, h⟩ := Option.ite_none_right_eq_some.mp h
    obtain ⟨c, hm, rfl⟩ := Option.map_eq_some_iff.mp h
    exact grown_of_move hs hm
  | commit i =>
    obtain ⟨c, hm, rfl⟩ := Option.map_eq_some_iff.mp h
    exact grown_of_move hs hm
  | reconnect i p n | arrive i noCache =>
    obtain rfl := Option.some.inj h
    exact Grown.refl _
  | mint k =>
    obtain ⟨w, -, rfl⟩ := Option.map_eq_some_iff.mp h
    exact Grown.refl _
  | assertFresh k t | assertFreshPrimary k | query k =>
    obtain ⟨r, -, h⟩ := Option.bind_eq_some_iff.mp h
    split at h
    · obtain rfl := Option.some.inj h
      exact Grown.refl _
    · cases h
  | verdict k =>
    obtain ⟨r, -, h⟩ := Option.bind_eq_some_iff.mp h
    split at h
    · split at h
      · obtain rfl := Option.some.inj h
        exact Grown.refl _
      · split at h
        · obtain rfl := Option.some.inj h
          exact Grown.refl _
        · obtain rfl := Option.some.inj h
          exact Grown.refl _
    · cases h

end Steps

/-! ## Runs -/

theorem Deployment.inv_start (d : Deployment I N) : Inv d.start :=
  ⟨d.wellFormed, fun _ h => absurd h List.not_mem_nil, fun _ h => absurd h List.not_mem_nil,
    fun _ h => absurd h List.not_mem_nil, fun _ h => absurd h List.not_mem_nil⟩

variable [DecidableEq I] [DecidableEq N]

/-- **Along calm steps** every read that was admitted for a token sees every write whose answer carried
that token or an earlier one, and no token is minted for a write that it does not cover. -/
theorem reads_writes_along (d : Deployment I N) {s : State I N} {es : List (Event I N)}
    (hrun : run (step d.hasPrimaryFallback) d.start es = some s)
    (hcalm : Along (step d.hasPrimaryFallback) Calm d.start es) : ReadYourWrites s ∧ NoTokenWithoutWrite s := by
  have hinv : Inv s := hcalm.run (fun _ _ _ hs hok h => inv_step hs hok h) d.inv_start hrun
  exact ⟨hinv.readYourWrites, hinv.responses⟩

end Runs

/-! ## A primary, a standby, and an instance -/

/-- The servers 0 and 1, of which 0 is the primary. -/
def pair : Deployment Unit ℕ where
  cluster :=
    { server := fun n => ⟨[], 0, n != 0, n != 0, 0⟩
      line := fun _ => []
      next := 1 }
  pool _ p := if p = .read then 1 else 0
  hasPrimaryFallback _ := true
  wellFormed := by
    refine ⟨fun n => ⟨Nat.zero_lt_one, List.prefix_rfl, fun _ => rfl, fun _ => rfl, le_rfl⟩, fun _ _ => rfl, ?_⟩
    intro m n hm hn _
    simp_all
  unnumbered _ _ h := absurd h List.not_mem_nil

/-- A write, a read that falls back to the primary, and one on the standby once it has replayed. -/
def calmEvents : List (Event Unit ℕ) :=
  [.commit (), .mint 0,
    .arrive () false, .assertFresh 0 ⟨0, 1⟩, .verdict 0, .assertFreshPrimary 0, .verdict 0, .query 0,
    .server (.replay 1 (some 0)),
    .arrive () false, .assertFresh 1 ⟨0, 1⟩, .verdict 1, .query 1]

def afterCalm : State Unit ℕ := (run (step pair.hasPrimaryFallback) pair.start calmEvents).get (by decide)

theorem pair_reads_writes : ReadYourWrites afterCalm ∧ NoTokenWithoutWrite afterCalm := by
  have hrun : run (step pair.hasPrimaryFallback) pair.start calmEvents = some afterCalm :=
    (Option.some_get _).symm
  exact reads_writes_along pair hrun (by decide)

/-- The standby is promoted between the commit and the mint, without the write, and the pools follow. -/
def failover : List (Event Unit ℕ) :=
  [.commit (), .server (.promote 1), .reconnect () .write 1, .mint 0,
    .arrive () false, .assertFresh 0 ⟨1, 0⟩, .verdict 0, .query 0]

def afterFailover : State Unit ℕ := (run (step pair.hasPrimaryFallback) pair.start failover).get (by decide)

/-- **A token for a lost write**: the new primary mints it, finds itself fresh for it, and does not have
the write. -/
theorem token_for_lost_write : ¬NoTokenWithoutWrite afterFailover ∧ ¬ReadYourWrites afterFailover := by
  have hresponses : (0, ⟨1, 0⟩) ∈ afterFailover.responses := by decide
  refine ⟨fun h => ?_, fun h => ?_⟩
  · have hmem : some 0 ∈ ([] : List Record) := (h _ hresponses).2
    exact absurd hmem List.not_mem_nil
  · have hserved : ([((⟨1, 0⟩ : Token), 1)], []) ∈ afterFailover.served := by decide
    have hmem := h _ hserved _ (List.mem_singleton_self _) _ hresponses List.prefix_rfl
    exact absurd hmem List.not_mem_nil


end PgAuthz.Freshness
