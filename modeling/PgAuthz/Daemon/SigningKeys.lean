import Mathlib
import PgAuthz.Transition.Runs

/-!
# The signing keys of an issuer

A validator caches the keys of its issuer. A key that is cached and fresh is returned at once; otherwise the
key set is fetched, its usable keys are stored under their ids, and the cache is read again. A failed fetch
leaves the cache as it was.

A fetch stores keys and removes none. So a key that the issuer has withdrawn stays in the cache, and it is
returned for its id as if the key set still had it. The same holds for a key that the new key set gives in a
form that cannot be used.

## Main definitions

* `parseECPublicKey`, `parseRSAPublicKey`: the keys of a key set
* `getKey`, `fetchJWKS`: the cache
* `material`: the key that a key set gives for an id
* `Covers`: what is fetched has a usable key for every cached id

## Main results

* `keys_are_of_latest`: along `Covers` every key returned is that of the key set fetched last, and one call
  that is not leaves a key for which this fails
-/

namespace PgAuthz.Daemon

namespace SigningKeys

open Transition

/-! ## Keys -/

/-- The value of a digit of the URL alphabet. -/
def digit (c : Char) : Option ℕ :=
  if 'A' ≤ c ∧ c ≤ 'Z' then some (c.toNat - 'A'.toNat)
  else if 'a' ≤ c ∧ c ≤ 'z' then some (c.toNat - 'a'.toNat + 26)
  else if '0' ≤ c ∧ c ≤ '9' then some (c.toNat - '0'.toNat + 52)
  else if c = '-' then some 62
  else if c = '_' then some 63
  else none

/-- Four digits are three bytes. A rest of two or three digits is one byte or two, whatever their last bits. -/
def bytesOfDigits : List ℕ → Option (List UInt8)
  | a :: b :: c :: d :: rest =>
    (bytesOfDigits rest).map
      ([UInt8.ofNat (4 * a + b / 16), UInt8.ofNat (16 * b + c / 4), UInt8.ofNat (64 * c + d)] ++ ·)
  | [a, b, c] => some [UInt8.ofNat (4 * a + b / 16), UInt8.ofNat (16 * b + c / 4)]
  | [a, b] => some [UInt8.ofNat (4 * a + b / 16)]
  | [_] => none
  | [] => some []

/-- `base64.RawURLEncoding.DecodeString`, which skips line breaks. -/
def rawURLDecode (s : String) : Option (List UInt8) :=
  ((s.toList.filter fun c => c ≠ '\r' ∧ c ≠ '\n').mapM digit).bind bytesOfDigits

/-- `SetBytes`: the number with the given bytes, the highest first. -/
def setBytes (bytes : List UInt8) : ℕ := bytes.foldl (fun n b => 256 * n + b.toNat) 0

/-- The supported curves. -/
inductive Curve
  | p256 | p384 | p521
deriving DecidableEq, Repr

/-- The curve of a name. -/
def Curve.ofName : String → Option Curve
  | "P-256" => some p256
  | "P-384" => some p384
  | "P-521" => some p521
  | _ => none

/-- `BitSize`. -/
def Curve.bitSize : Curve → ℕ
  | p256 => 256
  | p384 => 384
  | p521 => 521

/-- The order of the field. -/
def Curve.prime : Curve → ℕ
  | p256 => 2 ^ 256 - 2 ^ 224 + 2 ^ 192 + 2 ^ 96 - 1
  | p384 => 2 ^ 384 - 2 ^ 128 - 2 ^ 96 + 2 ^ 32 - 1
  | p521 => 2 ^ 521 - 1

/-- The constant of the equation. -/
def Curve.b : Curve → ℕ
  | p256 => 0x5ac635d8aa3a93e7b3ebbd55769886bc651d06b0cc53b0f63bce3c3e27d2604b
  | p384 => 0xb3312fa7e23ee7e4988e056be3f82d19181d9c6efe8141120314088f5013875ac656398d8a2ed19d2a85c8edd3ec2aef
  | p521 => 0x0051953eb9618e1c9a1f929a21a0b68540eea2da725b99b315f3b8b489918ef109e156193951ec7e937b1652c0bd3bb1bf073573df883d2c34f1ef451fd46b503f00

/-- The point is on the curve `y² = x³ - 3x + b`. -/
def Curve.onCurve (c : Curve) (x y : ℕ) : Bool :=
  x < c.prime && y < c.prime && (y * y + 3 * x) % c.prime == (x * x * x + c.b) % c.prime

/-- `crypto.PublicKey`. -/
inductive PublicKey
  | ec (curve : Curve) (x y : ℕ)
  | rsa (n : ℕ) (e : ℤ)
deriving DecidableEq, Repr

/-- An entry of a key set. -/
structure JwkKey where
  kid : String
  kty : String
  crv : String
  x : String
  y : String
  n : String
  e : String
deriving DecidableEq, Repr

/-- `parseECPublicKey`: a shorter coordinate is padded, a longer one is refused. -/
def parseECPublicKey (k : JwkKey) : Option PublicKey := do
  let curve ← Curve.ofName k.crv
  let xBytes ← rawURLDecode k.x
  let yBytes ← rawURLDecode k.y
  let size := (curve.bitSize + 7) / 8
  if xBytes.length > size ∨ yBytes.length > size then none
  else if curve.onCurve (setBytes xBytes) (setBytes yBytes) then
    some (.ec curve (setBytes xBytes) (setBytes yBytes))
  else none

/-- `parseRSAPublicKey`: the exponent is cut to 64 bits. -/
def parseRSAPublicKey (k : JwkKey) : Option PublicKey := do
  let nBytes ← rawURLDecode k.n
  let eBytes ← rawURLDecode k.e
  some (.rsa (setBytes nBytes) (BitVec.ofNat 64 (setBytes eBytes)).toInt)

/-- The key of an entry, unless the entry is skipped. -/
def usable (k : JwkKey) : Option PublicKey :=
  match k.kty with
  | "EC" => parseECPublicKey k
  | "RSA" => parseRSAPublicKey k
  | _ => none

/-! ## The cache -/

/-- `jwksResponse`. -/
abbrev Document := List JwkKey

/-- `issuerValidator`: the keys under their ids, and when they were fetched. -/
structure Validator where
  keys : String → Option PublicKey
  last : ℤ

/-- A new validator. -/
def Validator.init : Validator := ⟨fun _ => none, 0⟩

/-- A call of `getKey`: the readings of the clock, in nanoseconds, before and after the lock is taken and after
a fetch, and what a fetch would read. The fetch fails if nothing can be read or decoded. -/
structure Call where
  kid : String
  now : ℤ
  locked : ℤ
  fetched : ℤ
  served : Except String Document

/-- The errors of `getKey`. -/
inductive KeyError
  | fetching (err : String)
  | notFound (kid : String)
deriving DecidableEq, Repr

/-- The keys were fetched less than five minutes ago. -/
def Validator.fresh (v : Validator) (now : ℤ) : Bool := now - v.last < 5 * 60 * 1000000000

/-- The usable keys are stored one after the other. -/
def storeKeys (keys : String → Option PublicKey) (doc : Document) : String → Option PublicKey :=
  doc.foldl (fun keys k =>
    match usable k with
    | some pub => Function.update keys k.kid (some pub)
    | none => keys) keys

/-- `fetchJWKS`. -/
def fetchJWKS (v : Validator) (c : Call) : Except String Validator :=
  match c.served with
  | .error err => .error err
  | .ok doc => .ok ⟨storeKeys v.keys doc, c.fetched⟩

/-- `refreshAndGet`. -/
def refreshAndGet (v : Validator) (c : Call) : Validator × Except KeyError PublicKey :=
  match (v.keys c.kid).filter fun _ => v.fresh c.locked with
  | some key => (v, .ok key)
  | none =>
    match fetchJWKS v c with
    | .error err =>
      -- a cached key is used despite the failure
      match v.keys c.kid with
      | some key => (v, .ok key)
      | none => (v, .error (.fetching err))
    | .ok v' =>
      match v'.keys c.kid with
      | some key => (v', .ok key)
      | none => (v', .error (.notFound c.kid))

/-- `getKey`. -/
def getKey (v : Validator) (c : Call) : Validator × Except KeyError PublicKey :=
  match (v.keys c.kid).filter fun _ => v.fresh c.now with
  | some key => (v, .ok key)
  | none => refreshAndGet v c

/-- The call fetches the key set: the key is not cached, or it is not fresh. -/
def Validator.fetches (v : Validator) (c : Call) : Bool :=
  (v.keys c.kid).isNone || !v.fresh c.now && !v.fresh c.locked

/-! ## Runs -/

/-- A validator, with the key set that the last successful fetch read. -/
structure State where
  validator : Validator
  latest : Option Document

/-- A new validator has fetched nothing. -/
def State.init : State := ⟨.init, none⟩

/-- The key set fetched last, after a call. -/
def State.latestAfter (st : State) (c : Call) : Option Document :=
  if st.validator.fetches c then c.served.toOption.or st.latest else st.latest

/-- A verification asks for a key. -/
def step (st : State) (c : Call) : Option State :=
  some ⟨(getKey st.validator c).1, st.latestAfter c⟩

/-- The key that a key set gives for an id: that of the last usable entry. -/
def material (doc : Document) (kid : String) : Option PublicKey :=
  ((doc.filter fun k => k.kid = kid).filterMap usable).getLast?

/-- A key that is returned is the one that the key set fetched last gives for the id. -/
def Faithful (st : State) (c : Call) : Prop :=
  ∀ key, (getKey st.validator c).2 = .ok key →
    ∃ doc, st.latestAfter c = some doc ∧ material doc c.kid = some key

/-- A key set that is fetched has a usable key for every cached id. -/
def Covers (st : State) (c : Call) : Prop :=
  st.validator.fetches c = true → ∀ doc, c.served = .ok doc →
    ∀ kid, (st.validator.keys kid).isSome → (material doc kid).isSome

/-! ## One call -/

theorem material_cons (k : JwkKey) (doc : Document) (kid : String) :
    material (k :: doc) kid = (material doc kid).or (if k.kid = kid then usable k else none) := by
  unfold material
  by_cases hkid : k.kid = kid
  · rw [List.filter_cons_of_pos (by simpa using hkid), List.filterMap_cons, if_pos hkid]
    cases usable k with
    | none => rw [Option.or_none]
    | some pub =>
      dsimp only
      rw [List.getLast?_cons]
      cases ((doc.filter fun k => k.kid = kid).filterMap usable).getLast? <;> rfl
  · rw [List.filter_cons_of_neg (by simpa using hkid), if_neg hkid, Option.or_none]

/-- **A fetch replaces the keys that the key set gives, and leaves the others.** -/
theorem storeKeys_apply (keys : String → Option PublicKey) (doc : Document) (kid : String) :
    storeKeys keys doc kid = (material doc kid).or (keys kid) := by
  induction doc generalizing keys with
  | nil => rfl
  | cons k doc ih =>
    have hcons : storeKeys keys (k :: doc) =
        storeKeys (match usable k with
          | some pub => Function.update keys k.kid (some pub)
          | none => keys) doc := rfl
    rw [hcons, ih, material_cons, Option.or_assoc]
    congr 1
    cases usable k with
    | none => rw [ite_self, Option.none_or]
    | some pub =>
      dsimp only
      by_cases hkid : k.kid = kid
      · rw [if_pos hkid, ← hkid, Function.update_self, Option.some_or]
      · rw [if_neg hkid, Function.update_of_ne (Ne.symm hkid), Option.none_or]

/-- What a call does: it answers from the cache, its fetch fails, or its fetch succeeds. -/
theorem getKey_cases (v : Validator) (c : Call) :
    (v.fetches c = false ∧ ∃ key, v.keys c.kid = some key ∧ getKey v c = (v, .ok key)) ∨
    (v.fetches c = true ∧ ∃ err, c.served = .error err ∧ (getKey v c).1 = v ∧
      ∀ key, (getKey v c).2 = .ok key ↔ v.keys c.kid = some key) ∨
    v.fetches c = true ∧ ∃ doc, c.served = .ok doc ∧
      (getKey v c).1 = ⟨storeKeys v.keys doc, c.fetched⟩ ∧
      ∀ key, (getKey v c).2 = .ok key ↔ storeKeys v.keys doc c.kid = some key := by
  unfold Validator.fetches getKey refreshAndGet fetchJWKS
  cases hkey : v.keys c.kid with
  | some key =>
    by_cases hnow : v.fresh c.now = true
    · left
      simp [hnow, Option.filter_some]
    · by_cases hlocked : v.fresh c.locked = true
      · left
        simp [hnow, hlocked, Option.filter_some]
      · right
        cases hserved : c.served with
        | error err => simp [hnow, hlocked]
        | ok doc =>
          right
          cases hstored : storeKeys v.keys doc c.kid <;> simp [hnow, hlocked, hstored]
  | none =>
    right
    cases hserved : c.served with
    | error err => simp
    | ok doc =>
      right
      cases hstored : storeKeys v.keys doc c.kid <;> simp [hstored]

/-! ## The cached keys -/

/-- Every cached key is the one that the key set fetched last gives for its id. -/
def CacheFaithful (st : State) : Prop :=
  ∀ kid key, st.validator.keys kid = some key → ∃ doc, st.latest = some doc ∧ material doc kid = some key

theorem cacheFaithful_init : CacheFaithful .init := nofun

variable {st st' : State} {c : Call}

/-- A key set that covers the cached ids gives all cached keys. -/
theorem material_of_stored {doc : Document} {kid : String} {key : PublicKey}
    (hcover : ∀ kid, (st.validator.keys kid).isSome → (material doc kid).isSome)
    (h : storeKeys st.validator.keys doc kid = some key) : material doc kid = some key := by
  rw [storeKeys_apply] at h
  rcases Option.or_eq_some_iff.mp h with hmat | ⟨hnone, hold⟩
  · exact hmat
  · have hsome := hcover kid (by rw [hold]; rfl)
    rw [hnone] at hsome
    cases hsome

/-- **What one call keeps, and what it returns.** -/
theorem cacheFaithful_step (h : CacheFaithful st) (hcover : Covers st c) (hstep : step st c = some st') :
    CacheFaithful st' ∧ Faithful st c := by
  obtain rfl := Option.some.inj hstep
  unfold CacheFaithful Faithful State.latestAfter
  rcases getKey_cases st.validator c with ⟨hfetch, key, hkey, hget⟩ | ⟨hfetch, err, hserved, hv, hans⟩ |
    ⟨hfetch, doc, hserved, hv, hans⟩
  · rw [hfetch, hget]
    refine ⟨h, fun key' hkey' => ?_⟩
    obtain rfl := Except.ok.inj hkey'
    exact h _ _ hkey
  · rw [hfetch, if_pos rfl, hserved, hv]
    exact ⟨h, fun key hkey => h _ _ ((hans key).mp hkey)⟩
  · rw [hfetch, if_pos rfl, hserved, hv]
    have hmat : ∀ kid key, storeKeys st.validator.keys doc kid = some key → material doc kid = some key :=
      fun kid key => material_of_stored (hcover hfetch doc hserved)
    exact ⟨fun kid key hkey => ⟨doc, rfl, hmat kid key hkey⟩,
      fun key hkey => ⟨doc, rfl, hmat c.kid key ((hans key).mp hkey)⟩⟩

/-- A fetch that does not cover the cached ids leaves one whose key is not of the key set. -/
theorem covers_of_cacheFaithful (hstep : step st c = some st') (h : CacheFaithful st') : Covers st c := by
  obtain rfl := Option.some.inj hstep
  intro hfetch doc hserved kid hkid
  rcases getKey_cases st.validator c with ⟨hno, -⟩ | ⟨-, err, herr, -⟩ | ⟨-, doc', hdoc', hv, -⟩
  · rw [hfetch] at hno
    cases hno
  · rw [hserved] at herr
    cases herr
  · obtain rfl := Except.ok.inj (hserved.symm.trans hdoc')
    obtain ⟨key, hkey⟩ := Option.isSome_iff_exists.mp hkid
    unfold CacheFaithful State.latestAfter at h
    rw [hv, hfetch, if_pos rfl, hserved] at h
    cases hmat : material doc kid with
    | some key' => rfl
    | none =>
      have hstored : storeKeys st.validator.keys doc kid = some key := by
        rw [storeKeys_apply, hmat, hkey, Option.none_or]
      obtain ⟨doc', hdoc', hgive⟩ := h kid key hstored
      obtain rfl := Option.some.inj hdoc'
      rw [hmat] at hgive
      cases hgive

/-- A call whose fetch, if it does one, fails. -/
def Call.quiet (kid : String) (now : ℤ) : Call := ⟨kid, now, now, now, .error "unreachable"⟩

/-- Whatever is cached is returned when nothing new can be fetched. -/
theorem cacheFaithful_iff_quiet : CacheFaithful st ↔ ∀ kid now, Faithful st (.quiet kid now) := by
  have hlatest : ∀ kid now, st.latestAfter (.quiet kid now) = st.latest := by
    intro kid now
    unfold State.latestAfter
    rw [Call.quiet]
    split
    · exact Option.none_or
    · rfl
  have hans : ∀ kid now key, (getKey st.validator (.quiet kid now)).2 = .ok key ↔
      st.validator.keys kid = some key := by
    intro kid now key
    rcases getKey_cases st.validator (.quiet kid now) with ⟨-, key', hkey, hget⟩ | ⟨-, err, -, -, hans⟩ |
      ⟨-, doc, hserved, -⟩
    · change st.validator.keys kid = some key' at hkey
      rw [hget, hkey, Except.ok.injEq, Option.some.injEq]
    · exact hans key
    · cases hserved
  unfold CacheFaithful Faithful
  simp only [hlatest, hans]
  exact ⟨fun h kid _ key => h kid key, fun h kid key => h kid 0 key⟩

/--
**Every key returned is that of the key set fetched last, along every run whose key sets cover the cached
ids.** After such a run, a further call leaves the keys so exactly if its key set covers them.
-/
theorem keys_are_of_latest {calls : List Call} (hcover : Along step Covers .init calls) :
    Along step Faithful .init calls ∧
      ∀ st c st', run step .init calls = some st → step st c = some st' →
        ((∀ kid now, Faithful st' (.quiet kid now)) ↔ Covers st c) := by
  have hkeep : ∀ st c st', CacheFaithful st → Covers st c → step st c = some st' → CacheFaithful st' :=
    fun st c st' h hc hstep => (cacheFaithful_step h hc hstep).1
  refine ⟨?_, fun st c st' hrun hstep => ?_⟩
  · exact Along.of_inv hkeep (fun st c h hc => (cacheFaithful_step h hc rfl).2) hcover cacheFaithful_init
  · have hst : CacheFaithful st := Along.run hkeep hcover cacheFaithful_init hrun
    rw [← cacheFaithful_iff_quiet]
    exact ⟨covers_of_cacheFaithful hstep, fun hc => hkeep st c st' hst hc hstep⟩

/-! ## A withdrawn key -/

/-- An entry with a small key. -/
def demoKey (kid n : String) : JwkKey := ⟨kid, "RSA", "", "", "", n, "AQAB"⟩

/-- A key set gets a second key, and new material for the first one. -/
def rotation : List Call :=
  [⟨"old", 0, 0, 0, .ok [demoKey "old" "Aw"]⟩,
    ⟨"new", 1000000000, 1000000000, 1000000000, .ok [demoKey "old" "BQ", demoKey "new" "Bw"]⟩]

theorem keys_are_of_latest_rotation : Along step Faithful .init rotation := by
  refine (@keys_are_of_latest rotation ⟨?_, fun st hst => ⟨?_, fun _ _ => trivial⟩⟩).1
  · intro _ doc _ kid hkid
    cases hkid
  · obtain rfl := Option.some.inj hst
    intro _ doc hdoc kid hkid
    obtain rfl := Except.ok.inj hdoc
    by_cases hold : kid = "old"
    · rw [hold]
      decide +kernel
    · have hnone : (getKey State.init.validator ⟨"old", 0, 0, 0, .ok [demoKey "old" "Aw"]⟩).1.keys kid = none := by
        change storeKeys (fun _ => none) [demoKey "old" "Aw"] kid = none
        have hne : ¬ (demoKey "old" "Aw").kid = kid := Ne.symm hold
        rw [storeKeys_apply, material_cons, if_neg hne]
        rfl
      rw [hnone] at hkid
      cases hkid

/-- The key set that the issuer serves after it has withdrawn a key. -/
def withdrawal : Call := ⟨"old", 400000000000, 400000000000, 400000000000, .ok [demoKey "new" "Bw"]⟩

/-- A withdrawn key is returned by the very call that has fetched the key set without it. -/
theorem withdrawn_key_is_returned :
    ∃ st, run step .init [⟨"old", 0, 0, 0, .ok [demoKey "old" "Aw"]⟩] = some st ∧ ¬ Faithful st withdrawal := by
  refine ⟨_, rfl, fun h => ?_⟩
  obtain ⟨doc, hdoc, hmat⟩ := h (.rsa 3 65537) (by decide +kernel)
  have hlatest : [demoKey "new" "Bw"] = doc := Option.some.inj hdoc
  rw [← hlatest] at hmat
  revert hmat
  decide +kernel

/-- The base point of a curve is a key. -/
example : parseECPublicKey ⟨"k", "EC", "P-256", "axfR8uEsQkf4vOblY6RA8ncDfYEt6zOg9KE5RdiYwpY",
    "T-NC4v4af5uO5-tKfA-eFivOM1drMV7Oy7ZAaDe_UfU", "", ""⟩ =
    some (.ec .p256 0x6b17d1f2e12c4247f8bce6e563a440f277037d812deb33a0f4a13945d898c296
      0x4fe342e2fe1a7f9b8ee7eb4a7c0f9e162bce33576b315ececbb6406837bf51f5) := by decide +kernel

end SigningKeys

end PgAuthz.Daemon
