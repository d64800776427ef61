import PgAuthz.Replication.Timelines

/-!
# Freshness tokens

A write answers with a token, the timeline and the position of the log after it. A read may ask for a
server that is at least as fresh as a token, and is admitted by the server it would run on, or by the
primary if the instance has a fallback to one. Commit and mint of a write, the two looks of an
assertion at its server, and assertion and query of a read are separate steps, each on whatever server
the pool of the instance is connected to.

## Main definitions

* `freshnessToken`, `freshnessVerdict`, `assertFresh`: the engine's functions
* `State`, `Event`, `step`: instances, servers, writes between commit and mint, and reads under way
* `Calm`: no pool has moved to another server, and no standby to another timeline, within a request
-/

namespace PgAuthz.Freshness

open Replication

/-! ## The engine -/

/-- A record of the log: a write of the store, under its number, or anything else. -/
abbrev Record := Option ℕ

/-- A token that verifies. -/
structure Token where
  epoch : ℕ
  lsn : ℕ
deriving DecidableEq, Repr

/-- The verdicts on a token. -/
inductive Verdict
  | fresh
  | stale
  | wrongEpoch
  | unknown
deriving DecidableEq, Repr

/-- `_freshness_verdict`. -/
def freshnessVerdict (nodeTli nodePos : Option ℕ) (t : Token) : Verdict :=
  match nodeTli with
  | none => .unknown
  | some tli =>
    if tli ≠ t.epoch then .wrongEpoch
    else
      match nodePos with
      | some pos => if t.lsn ≤ pos then .fresh else .stale
      | none => .stale

/-- `freshness_token`, which a standby refuses. -/
def freshnessToken (σ : Server Record) : Option Token :=
  if σ.standby then none else some ⟨σ.timeline, σ.log.length⟩

/-- What `assert_fresh` has in `v_tli` and `v_pos`. -/
structure Probe where
  timeline : Option ℕ
  position : Option ℕ
deriving DecidableEq, Repr

/-- The first look of `assert_fresh` at its server. A standby tells the timeline that it receives, and
its position is asked for afterwards. -/
def probe (σ : Server Record) : Probe :=
  if σ.standby then ⟨if σ.connected then some σ.timeline else none, none⟩
  else ⟨some σ.timeline, some σ.log.length⟩

/-- The rest of `assert_fresh`, with the replay position of a standby. -/
def assertFresh (σ : Server Record) (p : Probe) (t : Token) : Verdict :=
  freshnessVerdict p.timeline (some (p.position.getD σ.replayed)) t

theorem fresh_iff {nodeTli nodePos : Option ℕ} {t : Token} :
    freshnessVerdict nodeTli nodePos t = .fresh ↔
      nodeTli = some t.epoch ∧ ∃ pos, nodePos = some pos ∧ t.lsn ≤ pos := by
  unfold freshnessVerdict
  constructor
  · intro h
    split at h
    · cases h
    · split at h
      · cases h
      · rename_i heq
        split at h
        · split at h
          · rename_i pos hle
            exact ⟨congrArg some (not_not.mp heq), pos, rfl, hle⟩
          · cases h
        · cases h
  · rintro ⟨rfl, pos, rfl, hle⟩
    simp [hle]

/-! ## Instances and requests -/

/-- The pools of an instance: for writes, for its own reads, and to the primary for reads that fall
back. -/
inductive Pool
  | write
  | read
  | primary
deriving DecidableEq, Repr

/-- Where `checkFreshToken` stands: no token is being checked, `AssertFresh` or `AssertFreshPrimary` runs
on a server, or the own server has declined. -/
inductive Stage (N : Type)
  | idle
  | asserting (t : Token) (pool : Pool) (server : N) (p : Probe)
  | declined (t : Token)

/-- A read: its instance, whether it asks for no cached answers, whether it is marked for the primary, and
the tokens it was admitted for, each with the server that admitted it. -/
structure Read (I N : Type) where
  home : I
  noCache : Bool
  fallback : Bool
  admitted : List (Token × N)
  stage : Stage N

/-- `readPool`. -/
def Read.readPool {I N : Type} (r : Read I N) : Pool := if r.fallback then .primary else .read

/-- A write that has committed and has no answer yet: its number, its instance, and the server. -/
structure Pending (I N : Type) where
  id : ℕ
  home : I
  server : N

/-- The servers, the pools, the writes and their answers with a token, the reads under way, and what reads
were decided on, each with the tokens it was admitted for. -/
structure State (I N : Type) where
  cluster : Cluster N Record
  pool : I → Pool → N
  writes : ℕ
  pending : List (Pending I N)
  responses : List (ℕ × Token)
  reads : List (Read I N)
  served : List (List (Token × N) × List Record)

/-- What happens. `server` is a move that is not a write of an instance. -/
inductive Event (I N : Type)
  | server (m : Move N Record)
  | reconnect (i : I) (p : Pool) (n : N)
  | commit (i : I)
  | mint (k : ℕ)
  | arrive (i : I) (noCache : Bool)
  | assertFresh (k : ℕ) (t : Token)
  | assertFreshPrimary (k : ℕ)
  | verdict (k : ℕ)
  | query (k : ℕ)

/-- The move writes no tuple. -/
def isBackground {N : Type} : Move N Record → Bool
  | .append _ r => r.isNone
  | _ => true

section Steps

variable {I N : Type} [DecidableEq I] [DecidableEq N]

/-- The read `k` becomes `r`. -/
def State.setRead (s : State I N) (k : ℕ) (r : Read I N) : State I N := { s with reads := s.reads.set k r }

/-- An assertion starts on the server behind a pool. -/
def State.startAssert (s : State I N) (k : ℕ) (r : Read I N) (t : Token) (p : Pool) : State I N :=
  let n := s.pool r.home p
  s.setRead k { r with stage := .asserting t p n (probe (s.cluster.server n)) }

/-- One event. A mint that fails leaves the answer without a token, and a read whose token is not admitted
ends. -/
def step (hasPrimaryFallback : I → Bool) (s : State I N) : Event I N → Option (State I N)
  | .server m =>
    if isBackground m then (move s.cluster m).map fun c => { s with cluster := c } else none
  | .reconnect i p n =>
    some { s with pool := Function.update s.pool i (Function.update (s.pool i) p n) }
  | .commit i =>
    let n := s.pool i .write
    (move s.cluster (.append n (some s.writes))).map fun c =>
      { s with cluster := c, writes := s.writes + 1, pending := s.pending ++ [⟨s.writes, i, n⟩] }
  | .mint k => s.pending[k]?.map fun w =>
    { s with
      pending := s.pending.eraseIdx k
      responses := s.responses ++
        ((freshnessToken (s.cluster.server (s.pool w.home .write))).map (w.id, ·)).toList }
  | .arrive i noCache => some { s with reads := s.reads ++ [⟨i, noCache, false, [], .idle⟩] }
  | .assertFresh k t => s.reads[k]?.bind fun r =>
    match r.stage with
    | .idle => some (s.startAssert k r t .read)
    | _ => none
  | .assertFreshPrimary k => s.reads[k]?.bind fun r =>
    match r.stage with
    | .declined t => some (s.startAssert k r t .primary)
    | _ => none
  | .verdict k => s.reads[k]?.bind fun r =>
    match r.stage with
    | .asserting t p n probe =>
      if assertFresh (s.cluster.server n) probe t = .fresh then
        some (s.setRead k
          { r with stage := .idle, admitted := r.admitted ++ [(t, n)], fallback := r.fallback || p = .primary })
      else if p = .read ∧ hasPrimaryFallback r.home then some (s.setRead k { r with stage := .declined t })
      else some { s with reads := s.reads.eraseIdx k }
    | _ => none
  | .query k => s.reads[k]?.bind fun r =>
    match r.stage with
    | .idle =>
      let n := s.pool r.home r.readPool
      some { s with served := s.served ++ [(r.admitted, (s.cluster.server n).log)] }
    | _ => none

/-! ## Calm steps -/

/-- The assertion that is running, if any, has not seen another timeline on the server. -/
def Stage.Follows (n : N) (timeline : ℕ) : Stage N → Prop
  | .asserting _ _ m p => m = n → ∀ e ∈ p.timeline, e = timeline
  | .idle | .declined _ => True

/-- The token of a write is minted on the server that committed it. -/
def MintedAtHome (s : State I N) : Event I N → Prop
  | .mint k => ∀ w ∈ s.pending[k]?, s.pool w.home .write = w.server
  | _ => True

/-- No standby goes to another timeline between the two looks of an assertion at it. -/
def NoSwitch (s : State I N) : Event I N → Prop
  | .server (.follow n timeline) => ∀ r ∈ s.reads, r.stage.Follows n timeline
  | _ => True

/-- A read is decided on the servers that admitted it. -/
def DecidedWhereAsserted (s : State I N) : Event I N → Prop
  | .query k => ∀ r ∈ s.reads[k]?, ∀ a ∈ r.admitted, s.pool r.home r.readPool = a.2
  | _ => True

/-- **Calm**: within a request no pool has moved to another server, and no standby to another
timeline. -/
structure Calm (s : State I N) (e : Event I N) : Prop where
  mint : MintedAtHome s e
  switch : NoSwitch s e
  query : DecidedWhereAsserted s e

instance decidableFollows (n : N) (timeline : ℕ) : (stage : Stage N) → Decidable (stage.Follows n timeline)
  | .asserting _ _ m p => inferInstanceAs (Decidable (m = n → ∀ e ∈ p.timeline, e = timeline))
  | .idle | .declined _ => .isTrue trivial

instance decidableMintedAtHome (s : State I N) : (e : Event I N) → Decidable (MintedAtHome s e)
  | .mint k => inferInstanceAs (Decidable (∀ w ∈ s.pending[k]?, s.pool w.home .write = w.server))
  | .server _ | .reconnect .. | .commit _ | .arrive .. | .assertFresh .. | .assertFreshPrimary _ | .verdict _
  | .query _ => .isTrue trivial

instance decidableNoSwitch (s : State I N) : (e : Event I N) → Decidable (NoSwitch s e)
  | .server (.follow n timeline) =>
    inferInstanceAs (Decidable (∀ r ∈ s.reads, r.stage.Follows n timeline))
  | .server (.append ..) | .server (.replay ..) | .server (.disconnect _) | .server (.promote _)
  | .reconnect .. | .commit _ | .mint _ | .arrive .. | .assertFresh .. | .assertFreshPrimary _ | .verdict _
  | .query _ => .isTrue trivial

instance decidableDecidedWhereAsserted (s : State I N) : (e : Event I N) → Decidable (DecidedWhereAsserted s e)
  | .query k => inferInstanceAs
    (Decidable (∀ r ∈ s.reads[k]?, ∀ a ∈ r.admitted, s.pool r.home r.readPool = a.2))
  | .server _ | .reconnect .. | .commit _ | .mint _ | .arrive .. | .assertFresh .. | .assertFreshPrimary _
  | .verdict _ => .isTrue trivial

instance decidableCalm (s : State I N) (e : Event I N) : Decidable (Calm s e) :=
  decidable_of_iff (MintedAtHome s e ∧ NoSwitch s e ∧ DecidedWhereAsserted s e)
    ⟨fun ⟨h₁, h₂, h₃⟩ => ⟨h₁, h₂, h₃⟩, fun ⟨h₁, h₂, h₃⟩ => ⟨h₁, h₂, h₃⟩⟩

end Steps

/-! ## Deployments -/

/-- Instances with their pools, whether they have a fallback to the primary, and servers that have logged
no numbered write yet. -/
structure Deployment (I N : Type) where
  cluster : Cluster N Record
  pool : I → Pool → N
  hasPrimaryFallback : I → Bool
  wellFormed : WellFormed cluster
  unnumbered : ∀ t, ∀ r ∈ cluster.line t, r = none

/-- No request has been made. -/
def Deployment.start {I N : Type} (d : Deployment I N) : State I N where
  cluster := d.cluster
  pool := d.pool
  writes := 0
  pending := []
  responses := []
  reads := []
  served := []

end PgAuthz.Freshness
