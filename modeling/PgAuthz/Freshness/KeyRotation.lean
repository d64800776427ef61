import PgAuthz.Freshness.TokenText
import PgAuthz.Transition.Rollout

/-!
# Rotating the key of the freshness tokens

The instances sign freshness tokens with the first key of their ring and read them with any key of it. A
key is replaced in three rollouts, each restarting the instances one by one: first the new key is appended
to the rings, then it is moved to the front, and at last the old key is dropped.

No instance is more than one rollout behind. So when the first instance signs with the new key every
instance can read it, and the old key is read by all up to the last rollout. Beyond it the tokens of the
old key are refused, and those of the new key are read everywhere.

What an instance reads comes from a token. The signature of a payload under a key is only known from a
token with this payload, and a payload has one timeline and one position.

## Main definitions

* `Rotation`, `Rotation.ring`: two secrets, and the rings of the rollouts
* `mintRevision`: the token of a write
* `Unforged`: whoever holds a signature has it from a token

## Main results

* `handed_out_read`: who reads a token that was handed out
* `read_iff_issued`: what is read was handed out
-/

namespace PgAuthz

namespace Freshness

open Url (Bytes utf8)
open CursorSeal (colon)
open Transition (run)

/-- `mintRevision` signs with the first key. -/
def mintRevision (H : Hashes) (ring : Keyring) (epoch : Int32) (lsn : Bytes) : Option String :=
  ring.head?.map fun key => encodeFreshnessToken H key epoch lsn

/-- A secret and the one that replaces it. The configuration refuses two secrets with the same id. -/
structure Rotation (H : Hashes) where
  old : Bytes
  new : Bytes
  oldNonempty : old ≠ []
  newNonempty : new ≠ []
  valid : (newKeyring H [old, new]).validate = none

namespace Rotation

variable {H : Hashes} (R : Rotation H)

/-- The rings: `old`, then `old,new`, then `new,old`, then `new`. -/
def ring : ℕ → Keyring
  | 0 => newKeyring H [R.old]
  | 1 => newKeyring H [R.old, R.new]
  | 2 => newKeyring H [R.new, R.old]
  | _ + 3 => newKeyring H [R.new]

/-- The old key. -/
def oldKey : Key := ⟨deriveKID H R.old, R.old⟩

/-- The new key. -/
def newKey : Key := ⟨deriveKID H R.new, R.new⟩

/-- The key that signs under a ring. -/
def key (m : ℕ) : Key := if m ≤ 1 then R.oldKey else R.newKey

/-- The rings, written out. -/
theorem ring_eq : R.ring 0 = [R.oldKey] ∧ R.ring 1 = [R.oldKey, R.newKey] ∧ R.ring 2 = [R.newKey, R.oldKey] ∧
    ∀ q, R.ring (q + 3) = [R.newKey] := by
  have hold := R.oldNonempty
  have hnew := R.newNonempty
  simp [ring, newKeyring, hold, hnew, oldKey, newKey]

theorem kid_ne : R.oldKey.kid ≠ R.newKey.kid := by
  have hvalid : (R.ring 1).validate = none := R.valid
  rw [R.ring_eq.2.1] at hvalid
  have hnodup := (validateFrom_eq_none hvalid).1
  simpa using hnodup

theorem head?_ring (m : ℕ) : (R.ring m).head? = some (R.key m) := by
  obtain ⟨h₀, h₁, h₂, h₃⟩ := R.ring_eq
  rcases m with - | - | - | m
  · rw [h₀]
    rfl
  · rw [h₁]
    rfl
  · rw [h₂]
    rfl
  · rw [h₃, key, if_neg (by omega)]
    rfl

/-- The old key is in the rings up to the last rollout. -/
theorem byKID_oldKey (q : ℕ) : (R.ring q).byKID R.oldKey.kid = if q ≤ 2 then some R.oldKey else none := by
  obtain ⟨h₀, h₁, h₂, h₃⟩ := R.ring_eq
  have hne := R.kid_ne
  rcases q with - | - | - | q
  · simp [h₀, Keyring.byKID]
  · simp [h₁, Keyring.byKID]
  · simp [h₂, Keyring.byKID, hne.symm]
  · simp [h₃, Keyring.byKID, hne.symm]

/-- The new key is in the rings from the first rollout on. -/
theorem byKID_newKey (q : ℕ) : (R.ring q).byKID R.newKey.kid = if 1 ≤ q then some R.newKey else none := by
  obtain ⟨h₀, h₁, h₂, h₃⟩ := R.ring_eq
  have hne := R.kid_ne
  rcases q with - | - | - | q
  · simp [h₀, Keyring.byKID, hne]
  · simp [h₁, Keyring.byKID, hne]
  · simp [h₂, Keyring.byKID]
  · simp [h₃, Keyring.byKID]

theorem colon_not_mem_key (m : ℕ) : colon ∉ (R.key m).kid := by
  rw [key]
  split
  · exact colon_not_mem_deriveKID H R.old
  · exact colon_not_mem_deriveKID H R.new

/-- A ring that may be a rollout behind the one that signed has the key of that one, up to the last
rollout. -/
theorem byKID_key {m q : ℕ} (h : m ≤ q + 1) :
    (R.ring q).byKID (R.key m).kid = if q ≤ 2 ∨ 2 ≤ m then some (R.key m) else none := by
  rw [key]
  by_cases hm : m ≤ 1
  · rw [if_pos hm, byKID_oldKey]
    simp only [show ¬ 2 ≤ m by omega, or_false]
  · rw [if_neg hm, byKID_newKey, if_pos (by omega), if_pos (.inr (by omega))]

/-! ## Tokens that were handed out -/

section Fleet

variable {I : Type} [Fintype I] [DecidableEq I] {s : Rollout.State I (Int32 × Bytes)}
  {es : List (Rollout.Event I (Int32 × Bytes))}

/-- **Who reads a token that was handed out**: every instance, as what it was handed out for, but for those
that have dropped the key that signed it. These say that the key is unknown. -/
theorem handed_out_read (hrun : run Rollout.step (Rollout.State.init I (Int32 × Bytes)) es = some s) {m : ℕ}
    {epoch : Int32} {lsn : Bytes} (hissued : (m, epoch, lsn) ∈ s.issued) :
    ∃ token key, (R.ring m).head? = some key ∧ mintRevision H (R.ring m) epoch lsn = some token ∧
      ∀ i, decodeFreshnessToken H (R.ring (s.config i)) token =
        if s.config i ≤ 2 ∨ 2 ≤ m then .ok (epoch, lsn, key.kid)
        else .error (.unknownKey (shownKID key.kid)) := by
  refine ⟨encodeFreshnessToken H (R.key m) epoch lsn, R.key m, R.head?_ring m, ?_, fun i => ?_⟩
  · rw [mintRevision, R.head?_ring m]
    rfl
  -- the instance is at most one rollout behind the one that signed
  have hring := R.byKID_key (Rollout.issued_le hrun hissued i)
  have hcolon := R.colon_not_mem_key m
  split
  · rename_i hkept
    rw [if_pos hkept] at hring
    exact decode_encode H hring hcolon epoch lsn
  · rename_i hdropped
    rw [if_neg hdropped] at hring
    exact decode_encode_unknown H hring hcolon epoch lsn

end Fleet

end Rotation

/-- Hashes that hide nothing. -/
def plainHashes : Hashes := ⟨id, fun secret body => secret ++ body⟩

/-- A rotation of two secrets. -/
def demoRotation : Rotation plainHashes where
  old := utf8 "old-secret"
  new := utf8 "new-secret"
  oldNonempty := by decide
  newNonempty := by decide
  valid := by decide

/-- One of two instances already signs with the new key, the other one has it in its ring. -/
def overlap : List (Rollout.Event Bool (Int32 × Bytes)) :=
  [.begin, .restart true, .restart false, .begin, .restart true, .issue true (3, utf8 "1/AB")]

theorem run_overlap : ∃ s, run Rollout.step (Rollout.State.init Bool (Int32 × Bytes)) overlap = some s ∧
    s.config false = 1 ∧ s.issued = [(2, 3, utf8 "1/AB")] := by
  have hruns : (run Rollout.step (Rollout.State.init Bool (Int32 × Bytes)) overlap).map
      (fun s => (s.config false, s.issued)) = some (1, [(2, 3, utf8 "1/AB")]) := by decide
  obtain ⟨s, hs, hfacts⟩ := Option.map_eq_some_iff.mp hruns
  obtain ⟨hconfig, hissued⟩ := Prod.mk.inj hfacts
  exact ⟨s, hs, hconfig, hissued⟩

namespace Rotation

/-- The instance behind reads the token that the one ahead has signed. -/
theorem handed_out_read_overlap : ∃ s token,
    run Rollout.step (Rollout.State.init Bool (Int32 × Bytes)) overlap = some s ∧ s.config false = 1 ∧
    mintRevision plainHashes (demoRotation.ring 2) 3 (utf8 "1/AB") = some token ∧
    ∃ kid, decodeFreshnessToken plainHashes (demoRotation.ring 1) token = .ok (3, utf8 "1/AB", kid) := by
  obtain ⟨s, hs, hconfig, hissued⟩ := run_overlap
  have hmem : (2, 3, utf8 "1/AB") ∈ s.issued := hissued ▸ List.mem_cons_self ..
  obtain ⟨token, key, -, hmint, hread⟩ := handed_out_read demoRotation hs hmem
  refine ⟨s, token, hs, hconfig, hmint, key.kid, ?_⟩
  have hbehind := hread false
  rw [hconfig] at hbehind
  exact hbehind

/-! ## Tokens that are read -/

section Fleet

variable {H : Hashes} (R : Rotation H) {I : Type} [Fintype I] [DecidableEq I]
  {s : Rollout.State I (Int32 × Bytes)} {es : List (Rollout.Event I (Int32 × Bytes))}

/-- Whoever holds the signature of a payload under one of the keys has it from a token with this
payload. -/
def Unforged (s : Rollout.State I (Int32 × Bytes)) (token : String) : Prop :=
  ∀ key ∈ [R.oldKey, R.newKey], ∀ body, Carries token body (H.hmac key.secret body) →
    ∃ m epoch lsn, (m, epoch, lsn) ∈ s.issued ∧ R.key m = key ∧ body = payload key.kid epoch lsn

theorem mem_keys {q : ℕ} {k : Key} (h : k ∈ R.ring q) : k ∈ [R.oldKey, R.newKey] := by
  obtain ⟨h₀, h₁, h₂, h₃⟩ := R.ring_eq
  rcases q with - | - | - | q
  · rw [h₀] at h
    exact List.mem_cons.mpr (.inl (List.mem_singleton.mp h))
  · rw [h₁] at h
    exact h
  · rw [h₂] at h
    simpa [or_comm] using h
  · rw [h₃] at h
    exact List.mem_cons_of_mem _ h

/-- **What is read was handed out.** An instance reads a text as a timeline and a position exactly if the
text carries the payload and the signature of a token that was handed out for them, under a key that the
instance has not dropped. -/
theorem read_iff_issued (hrun : run Rollout.step (Rollout.State.init I (Int32 × Bytes)) es = some s)
    {token : String} (hunforged : R.Unforged s token) (i : I) {epoch : Int32} {lsn kid : Bytes} :
    decodeFreshnessToken H (R.ring (s.config i)) token = .ok (epoch, lsn, kid) ↔
      ∃ m key, (m, epoch, lsn) ∈ s.issued ∧ (R.ring m).head? = some key ∧ key.kid = kid ∧
        Carries token (payload kid epoch lsn) (H.hmac key.secret (payload kid epoch lsn)) ∧
        (s.config i ≤ 2 ∨ 2 ≤ m) := by
  rw [decode_eq_ok_iff]
  constructor
  · rintro ⟨k, body, rest, epochText, hkey, hcarries, hbody, hrest, hepoch⟩
    obtain ⟨hmem, hkid⟩ := mem_of_byKID hkey
    obtain ⟨m, epoch', lsn', hissued, rfl, rfl⟩ := hunforged k (R.mem_keys hmem) body hcarries
    -- the fields that were read are those of the payload that was signed
    obtain ⟨hbody', hrest'⟩ := cut_payload (R.colon_not_mem_key m) epoch' lsn'
    obtain ⟨-, rfl⟩ := Prod.mk.inj (Option.some.inj (hbody'.symm.trans hbody))
    obtain ⟨rfl, rfl⟩ := Prod.mk.inj (Option.some.inj (hrest'.symm.trans hrest))
    obtain rfl : epoch' = epoch := Option.some.inj ((parseInt_formatInt epoch').symm.trans hepoch)
    have hring := R.byKID_key (Rollout.issued_le hrun hissued i)
    rw [hkid, hkey] at hring
    refine ⟨m, R.key m, hissued, R.head?_ring m, hkid, hkid ▸ hcarries, ?_⟩
    by_contra hdropped
    rw [if_neg hdropped] at hring
    cases hring
  · rintro ⟨m, k, hissued, hhead, rfl, hcarries, hkept⟩
    obtain rfl : R.key m = k := Option.some.inj ((R.head?_ring m).symm.trans hhead)
    have hring := R.byKID_key (Rollout.issued_le hrun hissued i)
    rw [if_pos hkept] at hring
    obtain ⟨hbody, hrest⟩ := cut_payload (R.colon_not_mem_key m) epoch lsn
    exact ⟨R.key m, _, _, _, hring, hcarries, hbody, hrest, parseInt_formatInt epoch⟩

end Fleet

/-- The signature of the token that was handed out is under the new key, and of its own payload. -/
theorem read_iff_issued_overlap : ∃ s token,
    run Rollout.step (Rollout.State.init Bool (Int32 × Bytes)) overlap = some s ∧
    demoRotation.Unforged s token ∧
    decodeFreshnessToken plainHashes (demoRotation.ring (s.config false)) token =
      .ok (3, utf8 "1/AB", demoRotation.newKey.kid) := by
  obtain ⟨s, hs, hconfig, hissued⟩ := run_overlap
  have hmem : (2, 3, utf8 "1/AB") ∈ s.issued := hissued ▸ List.mem_cons_self ..
  have hcarries := carries_encode plainHashes demoRotation.newKey 3 (utf8 "1/AB")
  have hunforged : demoRotation.Unforged s
      (encodeFreshnessToken plainHashes demoRotation.newKey 3 (utf8 "1/AB")) := by
    intro key hkey body hcarries'
    obtain ⟨rfl, hmac⟩ := hcarries.unique hcarries'
    have hsecret : demoRotation.newKey.secret = key.secret := List.append_cancel_right hmac
    rcases List.mem_cons.mp hkey with rfl | hkey
    · exact absurd hsecret (by decide)
    · obtain rfl := List.mem_singleton.mp hkey
      exact ⟨2, 3, utf8 "1/AB", hmem, rfl, rfl⟩
  refine ⟨s, _, hs, hunforged, ?_⟩
  exact (read_iff_issued demoRotation hs hunforged false).mpr
    ⟨2, demoRotation.newKey, hmem, rfl, rfl, hcarries, .inr (le_refl 2)⟩

end Rotation

end Freshness

end PgAuthz
