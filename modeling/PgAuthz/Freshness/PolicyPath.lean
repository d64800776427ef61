import PgAuthz.Freshness.ReadYourWrites
import PgAuthz.Opa.NativeCallback

/-!
# Freshness in front of the policies

On an instance with a policy engine in front, a read is admitted for its token by the instance's own
servers, and decided by the engine. The engine keeps the answers of its callbacks for a lifetime, unless
the read asks for no cached ones, and calls back whatever instance it is configured with, which reads on
the server behind its own pool. Neither the token nor the mark for the primary goes along.

## Main definitions

* `cacheTtl`, `effectiveCacheTtl`, `cacheSeconds`: the lifetime of an answer
* `PathState`, `PathEvent`, `pathStep`: the requests with the engines, their caches and a clock
* `FreshThroughPolicies`: an admitted read is decided on the writes of its token and of earlier ones
* `CalmPath`: no cached answer is used, and the callback reads on the server that admitted the read

## Main results

* `inv_pathStep`: such a step keeps the invariant
* `fresh_through_policies_along`: admitted reads are fresh in every state that such steps lead to
-/

namespace PgAuthz.Freshness

open Opa (NativeCall)
open Replication Transition

/-! ## Lifetimes -/

/-- `cache_ttl_seconds` and `default_cache_ttl_seconds`. -/
structure CacheConfig where
  ttlSeconds : List (String × List (String × ℤ))
  default : ℤ

/-- `_cache_ttl`: of the object type, of the store, or of all stores. -/
def cacheTtl (cfg : CacheConfig) (store objectType : String) : Option ℤ :=
  match cfg.ttlSeconds.lookup store with
  | some types => types.lookup objectType <|> types.lookup "_default"
  | none => some cfg.default

/-- `_effective_cache_ttl`. -/
def effectiveCacheTtl (cfg : CacheConfig) (noCache : Bool) (store objectType : String) : Option ℤ :=
  if noCache then some 0 else cacheTtl cfg store objectType

/-- A callback: the store, the endpoint, the object type and whether details are asked for, and the rest
of its headers and its body. -/
structure Call where
  store : String
  endpoint : NativeCall
  objectType : String
  detail : Bool
  rest : String
deriving DecidableEq, Repr

/-- The seconds that a rule hands to `_native_send`. -/
def cacheSeconds (cfg : CacheConfig) (noCache : Bool) (call : Call) : Option ℤ :=
  match call.endpoint, call.detail with
  | .explain, _ | .checkBatch, _ | .check, true => some (-1)
  | _, _ => effectiveCacheTtl cfg noCache call.store call.objectType

theorem cacheSeconds_noCache {cfg : CacheConfig} {call : Call} {seconds : ℤ}
    (h : cacheSeconds cfg true call = some seconds) : seconds ≤ 0 := by
  unfold cacheSeconds at h
  split at h
  · obtain rfl := Option.some.inj h
    decide
  · obtain rfl := Option.some.inj h
    decide
  · obtain rfl := Option.some.inj h
    decide
  · obtain rfl := Option.some.inj h
    exact le_rfl

/-! ## Engines -/

/-- The engine in front of every instance, and for every engine the instance that it calls back and the
lifetimes of its answers. -/
structure PolicyPath (I O : Type) where
  engine : I → O
  nativeUrl : O → I
  cache : O → CacheConfig

/-- An answer that an engine keeps: the request, with the lifetime in it, when it expires, and what it was
answered on. -/
structure Cached (O : Type) where
  engine : O
  call : Call
  seconds : ℤ
  expires : ℤ
  log : List Record

/-- The requests, the time, the cached answers, and what reads were decided on through the policies. -/
structure PathState (I N O : Type) where
  base : State I N
  clock : ℤ
  cache : List (Cached O)
  decided : List (List (Token × N) × List Record)

/-- What happens: at the instances, on the clock, in a cache that drops an answer, and a callback for the
read `k`. -/
inductive PathEvent (I N : Type)
  | base (e : Event I N)
  | tick
  | evict (i : ℕ)
  | callback (k : ℕ) (call : Call)

section Steps

variable {I N O : Type}

/-- `_native_cache`: an answer is kept if its lifetime is not negative. -/
def PathState.keep (s : PathState I N O) (o : O) (call : Call) (seconds : ℤ) (log : List Record) :
    List (Cached O) :=
  if 0 ≤ seconds then s.cache ++ [⟨o, call, seconds, s.clock + seconds, log⟩] else s.cache

/-- A read that is decided by a callback, with the log that the answer is based on. -/
def PathState.decide (s : PathState I N O) (r : Read I N) (log : List Record) : PathState I N O :=
  { s with decided := s.decided ++ [(r.admitted, log)] }

/-- The server that an engine's callback reads on. -/
def PathState.native (s : PathState I N O) (p : PolicyPath I O) (o : O) : N := s.base.pool (p.nativeUrl o) .read

/-- **Every read that was admitted for a token is decided on every write whose answer carried that token
or an earlier one.** -/
def FreshThroughPolicies (s : PathState I N O) : Prop :=
  ∀ d ∈ s.decided, ∀ a ∈ d.1, ∀ w ∈ s.base.responses, Earlier s.base.cluster w.2 a.1 → some w.1 ∈ d.2

/-- What calm steps keep: reads are decided on what their tokens cover, and an answer with no lifetime has
expired. -/
structure PathInv (s : PathState I N O) : Prop where
  base : Inv s.base
  cache : ∀ c ∈ s.cache, 0 ≤ c.seconds ∧ (c.seconds = 0 → c.expires ≤ s.clock)
  decided : ∀ d ∈ s.decided, ∀ a ∈ d.1, Replication.Covered s.base.cluster a.1.epoch a.1.lsn d.2

section Decisions

variable {s : PathState I N O}

theorem PathInv.fresh (h : PathInv s) : FreshThroughPolicies s := by
  intro d hd a ha w hw hearlier
  exact (h.decided d hd a ha).logged.subset (hearlier.subset (h.base.responses w hw).2)

theorem PathInv.decide (hs : PathInv s) {r : Read I N} {log : List Record}
    (h : ∀ a ∈ r.admitted, Replication.Covered s.base.cluster a.1.epoch a.1.lsn log) : PathInv (s.decide r log) := by
  refine ⟨hs.base, hs.cache, fun d hd a ha => ?_⟩
  rcases List.mem_append.mp hd with hd | hd
  · exact hs.decided d hd a ha
  · obtain rfl := List.mem_singleton.mp hd
    exact h a ha

/-- An answer that is kept for no time has expired. -/
theorem PathInv.keep (hs : PathInv s) (o : O) (call : Call) (seconds : ℤ) (log : List Record) :
    PathInv { s with cache := s.keep o call seconds log } := by
  refine ⟨hs.base, fun c hc => ?_, hs.decided⟩
  dsimp only [PathState.keep] at hc
  split at hc
  · rename_i hnonneg
    rcases List.mem_append.mp hc with hc | hc
    · exact hs.cache c hc
    · obtain rfl := List.mem_singleton.mp hc
      refine ⟨hnonneg, fun hzero => ?_⟩
      dsimp only at hzero ⊢
      omega
  · exact hs.cache c hc

end Decisions

variable [DecidableEq O]

/-- The cached answer to a request, if it has one that has not expired. -/
def PathState.live (s : PathState I N O) (o : O) (call : Call) (seconds : ℤ) : Option (Cached O) :=
  s.cache.find? fun c => c.engine = o ∧ c.call = call ∧ c.seconds = seconds ∧ s.clock < c.expires

/-- **A read that asks for no cached answer gets none.** -/
theorem live_noCache {s : PathState I N O} (hs : PathInv s) {cfg : CacheConfig} {o : O} {call : Call}
    {seconds : ℤ} (h : cacheSeconds cfg true call = some seconds) : s.live o call seconds = none := by
  refine List.find?_eq_none.mpr fun c hc hlive => ?_
  obtain ⟨-, -, rfl, hexpires⟩ := of_decide_eq_true hlive
  obtain ⟨hnonneg, hzero⟩ := hs.cache c hc
  have hle := hzero (le_antisymm (cacheSeconds_noCache h) hnonneg)
  omega

/-! ## Calm steps -/

/-- The read asks for no cached answer, or there is none. -/
def Uncached (p : PolicyPath I O) (s : PathState I N O) : PathEvent I N → Prop
  | .callback k call => ∀ r ∈ s.base.reads[k]?, r.noCache = true ∨
    ∀ seconds ∈ cacheSeconds (p.cache (p.engine r.home)) r.noCache call,
      (s.live (p.engine r.home) call seconds).isNone = true
  | _ => True

/-- The callback reads on the servers that admitted the read. -/
def CallsBackWhereAsserted (p : PolicyPath I O) (s : PathState I N O) : PathEvent I N → Prop
  | .callback k _ => ∀ r ∈ s.base.reads[k]?, ∀ a ∈ r.admitted, s.native p (p.engine r.home) = a.2
  | _ => True

/-- The requests themselves are calm. -/
def CalmBase (s : PathState I N O) : PathEvent I N → Prop
  | .base e => Calm s.base e
  | _ => True

/-- **Calm on the way through the policies.** -/
structure CalmPath (p : PolicyPath I O) (s : PathState I N O) (e : PathEvent I N) : Prop where
  base : CalmBase s e
  uncached : Uncached p s e
  native : CallsBackWhereAsserted p s e

variable [DecidableEq I] [DecidableEq N]

instance decidableCalmPath (p : PolicyPath I O) (s : PathState I N O) :
    (e : PathEvent I N) → Decidable (CalmPath p s e)
  | .base e => decidable_of_iff (Calm s.base e) ⟨fun h => ⟨h, trivial, trivial⟩, fun h => h.base⟩
  | .tick | .evict _ => .isTrue ⟨trivial, trivial, trivial⟩
  | .callback k call => decidable_of_iff
    ((∀ r ∈ s.base.reads[k]?, r.noCache = true ∨
      ∀ seconds ∈ cacheSeconds (p.cache (p.engine r.home)) r.noCache call,
        (s.live (p.engine r.home) call seconds).isNone = true) ∧
      ∀ r ∈ s.base.reads[k]?, ∀ a ∈ r.admitted, s.native p (p.engine r.home) = a.2)
    ⟨fun h => ⟨trivial, h.1, h.2⟩, fun h => ⟨h.uncached, h.native⟩⟩

/-! ## Steps -/

/-- One event. -/
def pathStep (p : PolicyPath I O) (hasPrimaryFallback : I → Bool) (s : PathState I N O) :
    PathEvent I N → Option (PathState I N O)
  | .base e => (step hasPrimaryFallback s.base e).map fun base => { s with base := base }
  | .tick => some { s with clock := s.clock + 1 }
  | .evict i => some { s with cache := s.cache.eraseIdx i }
  | .callback k call => s.base.reads[k]?.bind fun r =>
    match r.stage with
    | .idle =>
      let o := p.engine r.home
      (cacheSeconds (p.cache o) r.noCache call).map fun seconds =>
        match s.live o call seconds with
        | some c => s.decide r c.log
        | none =>
          let log := (s.base.cluster.server (s.native p o)).log
          { s.decide r log with cache := s.keep o call seconds log }
    | _ => none

variable {p : PolicyPath I O} {fallback : I → Bool} {s s' : PathState I N O}

theorem inv_callback (hs : PathInv s) {k : ℕ} {call : Call} (hun : Uncached p s (.callback k call))
    (hwhere : CallsBackWhereAsserted p s (.callback k call))
    (h : pathStep p fallback s (.callback k call) = some s') : PathInv s' := by
  obtain ⟨r, hr, h⟩ := Option.bind_eq_some_iff.mp h
  split at h
  · obtain ⟨seconds, hseconds, h⟩ := Option.map_eq_some_iff.mp h
    have hlive : s.live (p.engine r.home) call seconds = none := by
      rcases hun r hr with hnoCache | hnone
      · rw [hnoCache] at hseconds
        exact live_noCache hs hseconds
      · exact Option.isNone_iff_eq_none.mp (hnone seconds hseconds)
    rw [hlive] at h
    subst h
    refine (PathInv.decide hs fun a ha => ?_).keep _ _ _ _
    rw [hwhere r hr a ha]
    exact (hs.base.reads r (List.mem_of_getElem? hr)).admitted a ha
  · cases h

/-- **A calm step keeps the invariant.** -/
theorem inv_pathStep (hs : PathInv s) {e : PathEvent I N} (hcalm : CalmPath p s e)
    (h : pathStep p fallback s e = some s') : PathInv s' := by
  cases e with
  | base e =>
    obtain ⟨base, hbase, rfl⟩ := Option.map_eq_some_iff.mp h
    have hgrown := grown_of_step hs.base.cluster hbase
    exact ⟨inv_step hs.base hcalm.base hbase, hs.cache,
      fun d hd a ha => (hs.decided d hd a ha).mono hgrown List.prefix_rfl⟩
  | tick =>
    obtain rfl := Option.some.inj h
    refine ⟨hs.base, fun c hc => ⟨(hs.cache c hc).1, fun hzero => ?_⟩, hs.decided⟩
    have := (hs.cache c hc).2 hzero
    dsimp only
    omega
  | evict i =>
    obtain rfl := Option.some.inj h
    exact ⟨hs.base, fun c hc => hs.cache c (List.mem_of_mem_eraseIdx hc), hs.decided⟩
  | callback k call => exact inv_callback hs hcalm.uncached hcalm.native h

/-! ## Runs -/

/-- No request has been made, and no answer is cached. -/
def Deployment.startPath (d : Deployment I N) : PathState I N O := ⟨d.start, 0, [], []⟩

/-- **Along calm steps** every read that was admitted for a token is decided through the policies on
every write whose answer carried that token or an earlier one. -/
theorem fresh_through_policies_along (d : Deployment I N) (p : PolicyPath I O) {s : PathState I N O}
    {es : List (PathEvent I N)} (hrun : run (pathStep p d.hasPrimaryFallback) d.startPath es = some s)
    (hcalm : Along (pathStep p d.hasPrimaryFallback) (CalmPath p) d.startPath es) :
    FreshThroughPolicies s := by
  have hstart : PathInv (d.startPath (O := O)) :=
    ⟨d.inv_start, fun _ h => absurd h List.not_mem_nil, fun _ h => absurd h List.not_mem_nil⟩
  have hinv : PathInv s := hcalm.run (fun _ _ _ hs hok h => inv_pathStep hs hok h) hstart hrun
  exact hinv.fresh

end Steps

/-! ## An engine in front of the primary and its standby -/

/-- An engine that calls its own instance back and keeps answers for half a minute. -/
def front : PolicyPath Unit Unit where
  engine _ := ()
  nativeUrl _ := ()
  cache _ := ⟨[], 30⟩

/-- May alice view the plan? -/
def viewPlan : Call := ⟨"demo", .check, "document", false, "internal_user:alice#viewer@plan"⟩

/-- The standby replays a write, and a read that asks for no cached answer is decided on it. -/
def calmPathEvents : List (PathEvent Unit ℕ) :=
  [.base (.arrive () false), .callback 0 viewPlan, .base (.commit ()), .base (.mint 0),
    .base (.server (.replay 1 (some 0))), .base (.arrive () true), .base (.assertFresh 1 ⟨0, 1⟩),
    .base (.verdict 1), .callback 1 viewPlan]

def afterCalmPath : PathState Unit ℕ Unit :=
  (run (pathStep front pair.hasPrimaryFallback) pair.startPath calmPathEvents).get (by decide)

theorem pair_fresh_through_policies : FreshThroughPolicies afterCalmPath := by
  have hrun : run (pathStep front pair.hasPrimaryFallback) pair.startPath calmPathEvents = some afterCalmPath :=
    (Option.some_get _).symm
  exact fresh_through_policies_along pair front hrun (by decide)

/-- The same without the wish for no cached answer: the answer from before the write is still there. -/
def cachedEvents : List (PathEvent Unit ℕ) :=
  [.base (.arrive () false), .callback 0 viewPlan, .base (.commit ()), .base (.mint 0),
    .base (.server (.replay 1 (some 0))), .base (.arrive () false), .base (.assertFresh 1 ⟨0, 1⟩),
    .base (.verdict 1), .callback 1 viewPlan]

def afterCached : PathState Unit ℕ Unit :=
  (run (pathStep front pair.hasPrimaryFallback) pair.startPath cachedEvents).get (by decide)

/-- The standby has not replayed, the primary admits the read, and the callback reads on the standby. -/
def fallbackEvents : List (PathEvent Unit ℕ) :=
  [.base (.commit ()), .base (.mint 0), .base (.arrive () true), .base (.assertFresh 0 ⟨0, 1⟩),
    .base (.verdict 0), .base (.assertFreshPrimary 0), .base (.verdict 0), .callback 0 viewPlan]

def afterFallback : PathState Unit ℕ Unit :=
  (run (pathStep front pair.hasPrimaryFallback) pair.startPath fallbackEvents).get (by decide)

/-- **Admitted and stale**: the standby has replayed and the engine's answer is older than the write; and
the primary admits the read, which is decided on a standby that has not replayed. -/
theorem stale_through_policies : ¬FreshThroughPolicies afterCached ∧ ¬FreshThroughPolicies afterFallback := by
  refine ⟨fun h => ?_, fun h => ?_⟩
  · have hdecided : ([((⟨0, 1⟩ : Token), 1)], []) ∈ afterCached.decided := by decide
    have hresponse : (0, ⟨0, 1⟩) ∈ afterCached.base.responses := by decide
    exact absurd (h _ hdecided _ (List.mem_singleton_self _) _ hresponse List.prefix_rfl) List.not_mem_nil
  · have hdecided : ([((⟨0, 1⟩ : Token), 0)], []) ∈ afterFallback.decided := by decide
    have hresponse : (0, ⟨0, 1⟩) ∈ afterFallback.base.responses := by decide
    exact absurd (h _ hdecided _ (List.mem_singleton_self _) _ hresponse List.prefix_rfl) List.not_mem_nil

end PgAuthz.Freshness
