import PgAuthz.Text.Base64
import PgAuthz.Daemon.SigningKeys
import PgAuthz.Opa.SealedCursors

/-!
# The text of a freshness token

A token names the timeline and the position of a write. It is handed out as text: the id of the key that
signs it, the timeline and the position between colons, and the signature of all three. Whoever reads it
looks up the key under the id that the text names.

The id of a key is made of its secret, in an alphabet without a colon, and a timeline is a number, so that
the first two colons part the three fields whatever the position holds. Different fields have different
texts, and the signature covers the id.

## Main definitions

* `Key`, `Keyring`, `newKeyring`: the keys, the first of which signs
* `encodeFreshnessToken`, `decodeFreshnessToken`: the text of a token, and its reader
* `Carries`: what a text holds, whoever wrote it

## Main results

* `payload_injective`: the fields of a payload
* `decode_encode`: a ring with the key reads the token
* `decode_eq_ok_iff`: what a ring reads is signed under one of its keys
-/

namespace PgAuthz

namespace Freshness

open Url (Bytes utf8)
open CursorSeal (colon decimal toNat_of_mem_toDigits colon_not_mem_decimal)
open Daemon.SigningKeys (rawURLDecode bytesOfDigits)

/-! ## Keys -/

/-- SHA-256, and HMAC-SHA256 under a secret. -/
structure Hashes where
  sha256 : Bytes → Bytes
  hmac : Bytes → Bytes → Bytes

/-- `Key` -/
structure Key where
  kid : Bytes
  secret : Bytes
deriving DecidableEq, Repr

/-- `Keyring` -/
abbrev Keyring := List Key

variable (H : Hashes)

/-- `deriveKID` -/
def deriveKID (secret : Bytes) : Bytes := utf8 (Base64.encode ((H.sha256 secret).take 4))

/-- `NewKeyring`: empty secrets are skipped. -/
def newKeyring (secrets : List Bytes) : Keyring :=
  (secrets.filter fun s => s ≠ []).map fun s => ⟨deriveKID H s, s⟩

/-- `Keyring.Validate` behind the ids that were seen: the id that two entries share. -/
def Keyring.validateFrom (seen : List Bytes) : Keyring → Option Bytes
  | [] => none
  | key :: rest => if key.kid ∈ seen then some key.kid else validateFrom (key.kid :: seen) rest

/-- `Keyring.Validate` -/
def Keyring.validate (ring : Keyring) : Option Bytes := ring.validateFrom []

/-- `Keyring.byKID`: the first entry with the id. -/
def Keyring.byKID (ring : Keyring) (kid : Bytes) : Option Key := ring.find? fun key => key.kid = kid

theorem validateFrom_eq_none {ring : Keyring} {seen : List Bytes} (h : ring.validateFrom seen = none) :
    (ring.map Key.kid).Nodup ∧ ∀ key ∈ ring, key.kid ∉ seen := by
  induction ring generalizing seen with
  | nil => exact ⟨List.nodup_nil, nofun⟩
  | cons key rest ih =>
    rw [Keyring.validateFrom] at h
    split at h
    · cases h
    · rename_i hkey
      obtain ⟨hnodup, hseen⟩ := ih h
      refine ⟨List.nodup_cons.mpr ⟨fun hmem => ?_, hnodup⟩, fun key' hkey' => ?_⟩
      · obtain ⟨key', hkey', heq⟩ := List.mem_map.mp hmem
        exact hseen key' hkey' (heq ▸ List.mem_cons_self ..)
      · rcases List.mem_cons.mp hkey' with rfl | hkey'
        · exact hkey
        · exact fun hmem => hseen key' hkey' (List.mem_cons_of_mem _ hmem)

/-- The keys of a valid ring are found under their ids. -/
theorem byKID_of_validate {ring : Keyring} (h : ring.validate = none) {key : Key} (hkey : key ∈ ring) :
    ring.byKID key.kid = some key := by
  have hnodup := (validateFrom_eq_none h).1
  cases hfind : ring.byKID key.kid with
  | none =>
    have hnone := List.find?_eq_none.mp hfind key hkey
    exact absurd (decide_eq_true rfl) hnone
  | some key' =>
    have hkid : key'.kid = key.kid := by simpa using List.find?_some hfind
    exact congrArg some (List.inj_on_of_nodup_map hnodup (List.mem_of_find?_eq_some hfind) hkey hkid)

theorem mem_of_byKID {ring : Keyring} {kid : Bytes} {key : Key} (h : ring.byKID kid = some key) :
    key ∈ ring ∧ key.kid = kid :=
  ⟨List.mem_of_find?_eq_some h, by simpa using List.find?_some h⟩

/-- No id of a key holds a colon. -/
theorem colon_not_mem_deriveKID (secret : Bytes) : colon ∉ deriveKID H secret := by
  have hdigit : ∀ v < 64, colon ∉ String.utf8EncodeChar (Base64.ofValue v) := by decide
  have hutf8 : ∀ l : List Char, utf8 (String.ofList l) = l.flatMap String.utf8EncodeChar := by
    intro l
    simp [utf8, List.utf8Encode]
  rw [deriveKID, Base64.encode, hutf8]
  intro h
  obtain ⟨c, hc, hcolon⟩ := List.mem_flatMap.mp h
  obtain ⟨v, hv, rfl⟩ := List.mem_map.mp hc
  exact hdigit v (Base64.lt_of_mem_digits hv) hcolon

theorem colon_not_mem_kid {secrets : List Bytes} {key : Key} (h : key ∈ newKeyring H secrets) :
    colon ∉ key.kid := by
  obtain ⟨s, -, rfl⟩ := List.mem_map.mp h
  exact colon_not_mem_deriveKID H s

/-! ## Numbers -/

/-- `strconv.FormatInt` to the base 10. -/
def formatInt (n : ℤ) : Bytes := if n < 0 then 45 :: decimal n.natAbs else decimal n.natAbs

/-- The number that digits stand for. -/
def parseUint (ds : Bytes) : Option ℕ :=
  if ds = [] ∨ ∃ d ∈ ds, d < 48 ∨ 57 < d then none
  else some (ds.foldl (fun n d => 10 * n + (d.toNat - 48)) 0)

/-- A number as an `int32`. -/
def toInt32 (n : ℤ) : Option Int32 := if -2 ^ 31 ≤ n ∧ n < 2 ^ 31 then some (Int32.ofInt n) else none

/-- `strconv.ParseInt` to the base 10 with 32 bits: digits, behind a sign if there is one. -/
def parseInt : Bytes → Option Int32
  | 43 :: ds => (parseUint ds).bind fun n => toInt32 n
  | 45 :: ds => (parseUint ds).bind fun n => toInt32 (-n)
  | ds => (parseUint ds).bind fun n => toInt32 n

theorem decimal_ne_nil (n : ℕ) : decimal n ≠ [] := by
  intro h
  exact Nat.toDigits_ne_nil (List.map_eq_nil_iff.mp h)

/-- A byte of a number in decimal is a digit. -/
theorem digit_of_mem_decimal {n : ℕ} {d : UInt8} (h : d ∈ decimal n) : 48 ≤ d ∧ d ≤ 57 := by
  obtain ⟨c, hc, rfl⟩ := List.mem_map.mp h
  have hc := toNat_of_mem_toDigits hc
  have hlt : c.toNat % 256 = c.toNat := Nat.mod_eq_of_lt (by omega)
  rw [UInt8.le_iff_toNat_le, UInt8.le_iff_toNat_le, UInt8.toNat_ofNat', hlt]
  exact hc

/-- A number is read back from its digits. -/
theorem parseUint_decimal (n : ℕ) : parseUint (decimal n) = some n := by
  have hdigits : ¬ (decimal n = [] ∨ ∃ d ∈ decimal n, d < 48 ∨ 57 < d) := by
    rintro (h | ⟨d, hd, h⟩)
    · exact decimal_ne_nil n h
    · have hd := digit_of_mem_decimal hd
      rw [UInt8.lt_iff_toNat_lt, UInt8.lt_iff_toNat_lt] at h
      rw [UInt8.le_iff_toNat_le, UInt8.le_iff_toNat_le] at hd
      omega
  rw [parseUint, if_neg hdigits, decimal, List.foldl_map]
  have hvalue : ∀ (l : List Char) (k : ℕ), (∀ c ∈ l, c.toNat < 256) →
      l.foldl (fun n c => 10 * n + ((UInt8.ofNat c.toNat).toNat - 48)) k = Nat.ofDigitChars 10 l k := by
    intro l
    induction l with
    | nil => exact fun k _ => rfl
    | cons c l ih =>
      intro k hl
      have hc : c.toNat % 256 = c.toNat := Nat.mod_eq_of_lt (hl c (List.mem_cons_self ..))
      rw [List.foldl_cons, UInt8.toNat_ofNat', hc, ih _ fun d hd => hl d (List.mem_cons_of_mem c hd)]
      rfl
  rw [hvalue _ _ fun c hc => by have := toNat_of_mem_toDigits hc; omega, Nat.ofDigitChars_ten_toDigits]

/-- Digits have no sign before them. -/
theorem parseInt_decimal (n : ℕ) : parseInt (decimal n) = toInt32 n := by
  cases hd : decimal n with
  | nil => exact absurd hd (decimal_ne_nil n)
  | cons d ds =>
    have hmem : d ∈ decimal n := hd ▸ List.mem_cons_self ..
    have hdigit := digit_of_mem_decimal hmem
    have hplus : d ≠ 43 := by
      rintro rfl
      exact absurd hdigit.1 (by decide)
    have hminus : d ≠ 45 := by
      rintro rfl
      exact absurd hdigit.1 (by decide)
    rw [parseInt]
    · rw [← hd, parseUint_decimal, Option.bind_some]
    · rintro ds' ⟨⟩
      exact hplus rfl
    · rintro ds' ⟨⟩
      exact hminus rfl

/-- **A number is read back from its text.** -/
theorem parseInt_formatInt (e : Int32) : parseInt (formatInt e.toInt) = some e := by
  have hle := e.le_toInt
  have hlt := e.toInt_lt
  have hrange : toInt32 e.toInt = some e := by
    rw [toInt32, if_pos ⟨hle, hlt⟩, Int32.ofInt_toInt]
  rw [formatInt]
  split
  · rename_i hneg
    have habs : -(e.toInt.natAbs : ℤ) = e.toInt := by omega
    rw [parseInt, parseUint_decimal, Option.bind_some, habs]
    exact hrange
  · rename_i hpos
    have habs : (e.toInt.natAbs : ℤ) = e.toInt := by omega
    rw [parseInt_decimal, habs]
    exact hrange

theorem colon_not_mem_formatInt (n : ℤ) : colon ∉ formatInt n := by
  rw [formatInt]
  split
  · intro h
    rcases List.mem_cons.mp h with h | h
    · cases h
    · exact colon_not_mem_decimal _ h
  · exact colon_not_mem_decimal _

/-! ## Tokens -/

/-- `strings.Cut`: what stands before the first separator and behind it. -/
def cut {α : Type} [DecidableEq α] (sep : α) (l : List α) : Option (List α × List α) :=
  match l.dropWhile fun x => x ≠ sep with
  | [] => none
  | _ :: rest => some (l.takeWhile fun x => x ≠ sep, rest)

/-- A list is cut at the first separator. -/
theorem cut_append {α : Type} [DecidableEq α] {sep : α} {l rest : List α} (h : sep ∉ l) :
    cut sep (l ++ sep :: rest) = some (l, rest) := by
  have hall : ∀ x ∈ l, decide (x ≠ sep) = true := fun x hx => decide_eq_true fun heq => h (heq ▸ hx)
  have hdrop : ((l ++ sep :: rest).dropWhile fun x => x ≠ sep) = sep :: rest := by
    rw [List.dropWhile_append_of_pos hall, List.dropWhile_cons_of_neg (by simp)]
  have htake : ((l ++ sep :: rest).takeWhile fun x => x ≠ sep) = l := by
    rw [List.takeWhile_append_of_pos hall, List.takeWhile_cons_of_neg (by simp), List.append_nil]
  simp only [cut, hdrop, htake]

/-- The signed part of a token. -/
def payload (kid : Bytes) (epoch : Int32) (lsn : Bytes) : Bytes :=
  kid ++ colon :: (formatInt epoch.toInt ++ colon :: lsn)

/-- `EncodeFreshnessToken` -/
def encodeFreshnessToken (key : Key) (epoch : Int32) (lsn : Bytes) : String :=
  Base64.encode (payload key.kid epoch lsn) ++ "." ++
    Base64.encode (H.hmac key.secret (payload key.kid epoch lsn))

/-- Why a token is refused. The log shows at most 16 bytes of an id that the caller has chosen. -/
inductive BadToken
  | noSignature
  | payloadEncoding
  | signatureEncoding
  | payload
  | unknownKey (shown : Bytes)
  | signature (kid : Bytes)
  | epoch
deriving DecidableEq, Repr

/-- An id as the log shows it. -/
def shownKID (kid : Bytes) : Bytes := if 16 < kid.length then kid.take 16 ++ utf8 "…" else kid

/-- `DecodeFreshnessToken`: the timeline, the position and the id of the key. -/
def decodeFreshnessToken (ring : Keyring) (token : String) : Except BadToken (Int32 × Bytes × Bytes) :=
  match cut '.' token.toList with
  | none => .error .noSignature
  | some (encPayload, encMAC) =>
    match rawURLDecode (String.ofList encPayload) with
    | none => .error .payloadEncoding
    | some body =>
      match rawURLDecode (String.ofList encMAC) with
      | none => .error .signatureEncoding
      | some gotMAC =>
        match cut colon body with
        | none => .error .payload
        | some (kid, rest) =>
          match ring.byKID kid with
          | none => .error (.unknownKey (shownKID kid))
          | some key =>
            if gotMAC ≠ H.hmac key.secret body then .error (.signature key.kid)
            else
              match cut colon rest with
              | none => .error .payload
              | some (epochText, lsn) =>
                match parseInt epochText with
                | none => .error .epoch
                | some epoch => .ok (epoch, lsn, key.kid)

/-- The text holds a payload and a signature, whoever wrote it. -/
def Carries (token : String) (body mac : Bytes) : Prop :=
  ∃ encPayload encMAC, cut '.' token.toList = some (encPayload, encMAC) ∧
    rawURLDecode (String.ofList encPayload) = some body ∧ rawURLDecode (String.ofList encMAC) = some mac

theorem Carries.unique {token : String} {body body' mac mac' : Bytes} (h : Carries token body mac)
    (h' : Carries token body' mac') : body = body' ∧ mac = mac' := by
  obtain ⟨encPayload, encMAC, hcut, hbody, hmac⟩ := h
  obtain ⟨encPayload', encMAC', hcut', hbody', hmac'⟩ := h'
  obtain ⟨rfl, rfl⟩ := Prod.mk.inj (Option.some.inj (hcut.symm.trans hcut'))
  exact ⟨Option.some.inj (hbody.symm.trans hbody'), Option.some.inj (hmac.symm.trans hmac')⟩

theorem bytesOfDigits_eq_bytes (ds : List ℕ) : bytesOfDigits ds = Base64.bytes ds := by
  induction ds using Base64.bytes.induct with
  | case1 a b c d rest ih => rw [bytesOfDigits, Base64.bytes, ih]
  | case2 a b c => rfl
  | case3 a b => rfl
  | case4 a => rfl
  | case5 => rfl

/-- The reader of the daemon is that of the alphabet of URLs. -/
theorem rawURLDecode_encode (bs : Bytes) : rawURLDecode (Base64.encode bs) = some bs := by
  have hdecode : rawURLDecode (Base64.encode bs) = Base64.decode (Base64.encode bs) := by
    rw [rawURLDecode, Base64.decode, funext bytesOfDigits_eq_bytes]
    rfl
  rw [hdecode]
  exact Base64.decode_encode bs

/-- The text of a token carries its payload and its signature. -/
theorem carries_encode (key : Key) (epoch : Int32) (lsn : Bytes) :
    Carries (encodeFreshnessToken H key epoch lsn) (payload key.kid epoch lsn)
      (H.hmac key.secret (payload key.kid epoch lsn)) := by
  refine ⟨(Base64.encode (payload key.kid epoch lsn)).toList,
    (Base64.encode (H.hmac key.secret (payload key.kid epoch lsn))).toList, ?_, ?_, ?_⟩
  · have hdot : '.' ∉ (Base64.encode (payload key.kid epoch lsn)).toList := by
      intro h
      cases Base64.isDigit_of_mem_encode h
    rw [encodeFreshnessToken, String.append_assoc, String.toList_append, String.toList_append]
    exact cut_append hdot
  · rw [String.ofList_toList, rawURLDecode_encode]
  · rw [String.ofList_toList, rawURLDecode_encode]

/-- The three fields of a payload. -/
theorem cut_payload {kid : Bytes} (hkid : colon ∉ kid) (epoch : Int32) (lsn : Bytes) :
    cut colon (payload kid epoch lsn) = some (kid, formatInt epoch.toInt ++ colon :: lsn) ∧
      cut colon (formatInt epoch.toInt ++ colon :: lsn) = some (formatInt epoch.toInt, lsn) :=
  ⟨cut_append hkid, cut_append (colon_not_mem_formatInt _)⟩

/-- **What a ring reads is signed under one of its keys**: the text carries a payload whose first field is
the id of the key, and the signature of the payload under that key. -/
theorem decode_eq_ok_iff {ring : Keyring} {token : String} {epoch : Int32} {lsn kid : Bytes} :
    decodeFreshnessToken H ring token = .ok (epoch, lsn, kid) ↔
      ∃ key body rest epochText, ring.byKID kid = some key ∧ Carries token body (H.hmac key.secret body) ∧
        cut colon body = some (kid, rest) ∧ cut colon rest = some (epochText, lsn) ∧
        parseInt epochText = some epoch := by
  constructor
  · intro h
    simp only [decodeFreshnessToken] at h
    split at h
    · cases h
    rename_i encPayload encMAC hcut
    split at h
    · cases h
    rename_i body hbody
    split at h
    · cases h
    rename_i mac hmac
    split at h
    · cases h
    rename_i kid' rest hrest
    split at h
    · cases h
    rename_i key hkey
    split at h
    · cases h
    rename_i hsigned
    split at h
    · cases h
    rename_i epochText lsn' hfields
    split at h
    · cases h
    rename_i epoch' hepoch
    cases h
    obtain rfl : mac = H.hmac key.secret body := not_not.mp hsigned
    have hkid := (mem_of_byKID hkey).2
    rw [hkid]
    exact ⟨key, body, rest, epochText, hkey, ⟨encPayload, encMAC, hcut, hbody, hmac⟩, hrest, hfields, hepoch⟩
  · rintro ⟨key, body, rest, epochText, hkey, ⟨encPayload, encMAC, hcut, hbody, hmac⟩, hrest, hfields, hepoch⟩
    have hkid := (mem_of_byKID hkey).2
    simp [decodeFreshnessToken, hcut, hbody, hmac, hrest, hkey, hfields, hepoch, hkid]

/-- **A ring with the key reads the token.** -/
theorem decode_encode {ring : Keyring} {key : Key} (hring : ring.byKID key.kid = some key)
    (hkid : colon ∉ key.kid) (epoch : Int32) (lsn : Bytes) :
    decodeFreshnessToken H ring (encodeFreshnessToken H key epoch lsn) = .ok (epoch, lsn, key.kid) := by
  obtain ⟨hbody, hrest⟩ := cut_payload hkid epoch lsn
  exact (decode_eq_ok_iff H).mpr ⟨key, _, _, _, hring, carries_encode H key epoch lsn, hbody, hrest,
    parseInt_formatInt epoch⟩

/-- A ring without a key of this id refuses the token. -/
theorem decode_encode_unknown {ring : Keyring} {key : Key} (hring : ring.byKID key.kid = none)
    (hkid : colon ∉ key.kid) (epoch : Int32) (lsn : Bytes) :
    decodeFreshnessToken H ring (encodeFreshnessToken H key epoch lsn) =
      .error (.unknownKey (shownKID key.kid)) := by
  obtain ⟨encPayload, encMAC, hcut, hbody, hmac⟩ := carries_encode H key epoch lsn
  simp only [decodeFreshnessToken, hcut, hbody, hmac, (cut_payload hkid epoch lsn).1, hring]

/-- **The fields of a payload** can be read off it. -/
theorem payload_injective {kid kid' lsn lsn' : Bytes} {epoch epoch' : Int32} (hkid : colon ∉ kid)
    (hkid' : colon ∉ kid') (h : payload kid epoch lsn = payload kid' epoch' lsn') :
    kid = kid' ∧ epoch = epoch' ∧ lsn = lsn' := by
  obtain ⟨hbody, hrest⟩ := cut_payload hkid epoch lsn
  obtain ⟨hbody', hrest'⟩ := cut_payload hkid' epoch' lsn'
  rw [h, hbody'] at hbody
  obtain ⟨hkids, hrests⟩ := Prod.mk.inj (Option.some.inj hbody)
  rw [← hrests, hrest'] at hrest
  obtain ⟨hepochs, hlsns⟩ := Prod.mk.inj (Option.some.inj hrest)
  have hparsed := congrArg parseInt hepochs
  rw [parseInt_formatInt, parseInt_formatInt] at hparsed
  exact ⟨hkids.symm, (Option.some.inj hparsed).symm, hlsns.symm⟩

end Freshness

end PgAuthz
