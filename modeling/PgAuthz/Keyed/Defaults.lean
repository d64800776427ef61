import Mathlib.Data.Set.Basic

/-!
# Tables in which default rows answer for the keys that are not known

A table precomputes the answers for pairs of a left and a right key. Only the known keys have rows
of their own. Each key has a default key, and a lookup of a key that is not listed as known also
reads the rows of its default. So a row of a default answers for keys the table has never seen.

A table is refreshed over some pairs. A key that becomes known no longer reads the rows of its
default, so the refresh adds, for each pair with such a key, the pairs of what its default had rows
with. It adds them for each side against the rows from before the refresh, and thus not the pairs of
two keys that both become known.

## Main definitions

* `Facts`: the known keys and the answers
* `Facts.Uniform`: a key that is not known is answered as its default
* `Table`, `Table.lookup`: the rows, the listed keys and the answer they give
* `Table.Exact`: the rows are the answers for the known keys
* `Refreshes`: what a refresh over some pairs leaves in the table
* `Covers`: the pairs of a refresh cover a change of the facts

## Main results

* `Table.Exact.lookup_iff`: an exact table answers for all keys, known or not
* `Refreshes.mem_rows_iff`: the rows after a refresh whose pairs cover the change
* `Refreshes.lookup_iff`: such a refresh answers right except for two keys that both became known
* `Refreshes.build`: a table built from nothing
-/

namespace Defaults

variable {α β ρ : Type}

/-! ## Answers and tables -/

/-- The known keys and the answers for pairs of keys. -/
structure Facts (α β ρ : Type) where
  left : Set α
  right : Set β
  answer : α → β → ρ → Prop

/-- The default of each key; a default is its own default. -/
structure Star (α : Type) where
  of : α → α
  idem : ∀ a, of (of a) = of a

variable {sl : Star α} {sr : Star β}

/-- A key that is not known is answered as its default, and whoever is answered is known or has a
known default. -/
structure Facts.Uniform (sl : Star α) (sr : Star β) (F : Facts α β ρ) : Prop where
  left_iff : ∀ {a b r}, a ∉ F.left → (F.answer a b r ↔ F.answer (sl.of a) b r)
  right_iff : ∀ {a b r}, b ∉ F.right → (F.answer a b r ↔ F.answer a (sr.of b) r)
  left_known : ∀ {a b r}, F.answer a b r → a ∈ F.left ∨ sl.of a ∈ F.left
  right_known : ∀ {a b r}, F.answer a b r → b ∈ F.right ∨ sr.of b ∈ F.right

/-- The key or its default is answered with a known key. -/
def Facts.SeenLeft (sl : Star α) (F : Facts α β ρ) (a : α) : Prop :=
  ∃ b ∈ F.right, ∃ r, F.answer a b r ∨ F.answer (sl.of a) b r

/-- The key or its default is answered with a known key. -/
def Facts.SeenRight (sr : Star β) (F : Facts α β ρ) (b : β) : Prop :=
  ∃ a ∈ F.left, ∃ r, F.answer a b r ∨ F.answer a (sr.of b) r

/-- The rows of a table and the keys it lists as known. -/
structure Table (α β ρ : Type) where
  rows : Set (α × β × ρ)
  left : Set α
  right : Set β

/-- The keys whose rows count for a key: its own, and those of its default unless it is listed. -/
def keys (s : Star α) (listed : Set α) (a : α) : Set α := {a' | a' = a ∨ (a' = s.of a ∧ a ∉ listed)}

/-- The answer of a table. -/
def Table.lookup (sl : Star α) (sr : Star β) (T : Table α β ρ) (a : α) (b : β) (r : ρ) : Prop :=
  ∃ a' ∈ keys sl T.left a, ∃ b' ∈ keys sr T.right b, (a', b', r) ∈ T.rows

/-- The listed keys are known and no defaults, and a known key is listed if it or its default is
answered. -/
structure Lists (s : Star α) (listed known seen : Set α) : Prop where
  known_of_listed : ∀ a ∈ listed, a ∈ known ∧ a ≠ s.of a
  listed_of_seen : ∀ a ∈ known, a ≠ s.of a → a ∈ seen → a ∈ listed

/-- The rows are the answers for the known keys. -/
structure Table.Exact (sl : Star α) (sr : Star β) (T : Table α β ρ) (F : Facts α β ρ) : Prop where
  left : Lists sl T.left F.left {a | F.SeenLeft sl a}
  right : Lists sr T.right F.right {b | F.SeenRight sr b}
  mem_rows : ∀ a b r, (a, b, r) ∈ T.rows ↔ a ∈ F.left ∧ b ∈ F.right ∧ F.answer a b r

/-- **The key that answers for a key**: the key itself if it is known, and otherwise its default. -/
theorem exists_keys_iff {s : Star α} {known listed seen : Set α} {a : α} {P : α → Prop}
    (hlisted : Lists s listed known seen) (hP : ∀ a, P a → a ∈ known)
    (hseen : P (s.of a) → a ∈ seen) :
    (∃ a' ∈ keys s listed a, P a') ↔ (a ∈ known ∧ P a) ∨ (a ∉ known ∧ P (s.of a)) := by
  constructor
  · rintro ⟨a', rfl | ⟨rfl, hnot⟩, h⟩
    · exact .inl ⟨hP _ h, h⟩
    · by_cases ha : a ∈ known
      · -- a known key that is seen and not listed is its own default
        have hself : a = s.of a := by
          by_contra hne
          exact hnot (hlisted.listed_of_seen a ha hne (hseen h))
        exact .inl ⟨ha, by rwa [← hself] at h⟩
      · exact .inr ⟨ha, h⟩
  · rintro (⟨-, h⟩ | ⟨ha, h⟩)
    · exact ⟨a, .inl rfl, h⟩
    · exact ⟨s.of a, .inr ⟨rfl, fun hl => ha (hlisted.known_of_listed a hl).1⟩, h⟩

/-- The answer of a table whose rows are answers for known keys, by the keys that answer. -/
theorem Table.lookup_iff_of_rows {T : Table α β ρ} {F : Facts α β ρ}
    (hl : Lists sl T.left F.left {a | F.SeenLeft sl a})
    (hr : Lists sr T.right F.right {b | F.SeenRight sr b})
    (hrows : ∀ {a b r}, (a, b, r) ∈ T.rows → a ∈ F.left ∧ b ∈ F.right ∧ F.answer a b r)
    {a : α} {b : β} {r : ρ} : T.lookup sl sr a b r ↔
      ∃ a' b', (a ∈ F.left ∧ a' = a ∨ a ∉ F.left ∧ a' = sl.of a) ∧
        (b ∈ F.right ∧ b' = b ∨ b ∉ F.right ∧ b' = sr.of b) ∧ (a', b', r) ∈ T.rows := by
  have hright : ∀ a', (∃ b' ∈ keys sr T.right b, (a', b', r) ∈ T.rows) ↔
      (b ∈ F.right ∧ (a', b, r) ∈ T.rows) ∨ (b ∉ F.right ∧ (a', sr.of b, r) ∈ T.rows) :=
    fun a' => exists_keys_iff hr (fun b' h => (hrows h).2.1)
      fun h => ⟨a', (hrows h).1, r, .inr (hrows h).2.2⟩
  have hleft := exists_keys_iff (a := a) (P := fun a' =>
    ∃ b' ∈ keys sr T.right b, (a', b', r) ∈ T.rows) hl (fun a' ⟨_, _, h⟩ => (hrows h).1)
      fun ⟨b', _, h⟩ => ⟨b', (hrows h).2.1, r, .inr (hrows h).2.2⟩
  unfold Table.lookup
  rw [hleft, hright, hright]
  constructor
  · rintro (⟨ha, h⟩ | ⟨ha, h⟩)
    · rcases h with ⟨hb, h⟩ | ⟨hb, h⟩
      · exact ⟨a, b, .inl ⟨ha, rfl⟩, .inl ⟨hb, rfl⟩, h⟩
      · exact ⟨a, sr.of b, .inl ⟨ha, rfl⟩, .inr ⟨hb, rfl⟩, h⟩
    · rcases h with ⟨hb, h⟩ | ⟨hb, h⟩
      · exact ⟨sl.of a, b, .inr ⟨ha, rfl⟩, .inl ⟨hb, rfl⟩, h⟩
      · exact ⟨sl.of a, sr.of b, .inr ⟨ha, rfl⟩, .inr ⟨hb, rfl⟩, h⟩
  · rintro ⟨a', b', ⟨ha, rfl⟩ | ⟨ha, rfl⟩, ⟨hb, rfl⟩ | ⟨hb, rfl⟩, h⟩
    · exact .inl ⟨ha, .inl ⟨hb, h⟩⟩
    · exact .inl ⟨ha, .inr ⟨hb, h⟩⟩
    · exact .inr ⟨ha, .inl ⟨hb, h⟩⟩
    · exact .inr ⟨ha, .inr ⟨hb, h⟩⟩

/-- The answer for two keys is that for the keys that answer for them, and these are known. -/
theorem Facts.Uniform.answer_iff {F : Facts α β ρ} (hU : F.Uniform sl sr) {a : α} {b : β} {r : ρ} :
    F.answer a b r ↔
      ∃ a' b', (a ∈ F.left ∧ a' = a ∨ a ∉ F.left ∧ a' = sl.of a) ∧
        (b ∈ F.right ∧ b' = b ∨ b ∉ F.right ∧ b' = sr.of b) ∧
        a' ∈ F.left ∧ b' ∈ F.right ∧ F.answer a' b' r := by
  -- a default that is answered is known
  have hl : ∀ {a b}, a ∉ F.left → F.answer a b r → sl.of a ∈ F.left := fun ha h =>
    (hU.left_known h).resolve_left ha
  have hr : ∀ {a b}, b ∉ F.right → F.answer a b r → sr.of b ∈ F.right := fun hb h =>
    (hU.right_known h).resolve_left hb
  constructor
  · intro h
    by_cases ha : a ∈ F.left
    · by_cases hb : b ∈ F.right
      · exact ⟨a, b, .inl ⟨ha, rfl⟩, .inl ⟨hb, rfl⟩, ha, hb, h⟩
      · exact ⟨a, sr.of b, .inl ⟨ha, rfl⟩, .inr ⟨hb, rfl⟩, ha, hr hb h, (hU.right_iff hb).mp h⟩
    · have h' := (hU.left_iff ha).mp h
      by_cases hb : b ∈ F.right
      · exact ⟨sl.of a, b, .inr ⟨ha, rfl⟩, .inl ⟨hb, rfl⟩, hl ha h, hb, h'⟩
      · exact ⟨sl.of a, sr.of b, .inr ⟨ha, rfl⟩, .inr ⟨hb, rfl⟩, hl ha h, hr hb h,
          (hU.right_iff hb).mp h'⟩
  · rintro ⟨a', b', ⟨-, rfl⟩ | ⟨ha, rfl⟩, ⟨-, rfl⟩ | ⟨hb, rfl⟩, -, -, h⟩
    · exact h
    · exact (hU.right_iff hb).mpr h
    · exact (hU.left_iff ha).mpr h
    · exact (hU.left_iff ha).mpr ((hU.right_iff hb).mpr h)

/-- **An exact table answers for all keys**, those it has never seen included. -/
theorem Table.Exact.lookup_iff {T : Table α β ρ} {F : Facts α β ρ} (hE : T.Exact sl sr F)
    (hU : F.Uniform sl sr) {a : α} {b : β} {r : ρ} : T.lookup sl sr a b r ↔ F.answer a b r := by
  rw [T.lookup_iff_of_rows hE.left hE.right fun h => (hE.mem_rows _ _ _).mp h, hU.answer_iff]
  exact exists_congr fun a' => exists_congr fun b' => and_congr_right fun _ =>
    and_congr_right fun _ => hE.mem_rows a' b' r

/-! ## Refreshing -/

/-- The pairs that a refresh adds: those of a key that becomes known with what its default has rows
with. -/
def transitions (sl : Star α) (sr : Star β) (T : Table α β ρ) (F' : Facts α β ρ) (P : Set (α × β)) :
    Set (α × β) :=
  {p | (∃ b, (p.1, b) ∈ P) ∧ p.1 ∈ F'.left ∧ p.1 ≠ sl.of p.1 ∧ p.1 ∉ T.left ∧
      ∃ r, (sl.of p.1, p.2, r) ∈ T.rows} ∪
    {p | (∃ a, (a, p.2) ∈ P) ∧ p.2 ∈ F'.right ∧ p.2 ≠ sr.of p.2 ∧ p.2 ∉ T.right ∧
      ∃ r, (p.1, sr.of p.2, r) ∈ T.rows}

/-- The pairs of a refresh with those it adds. -/
def refreshed (sl : Star α) (sr : Star β) (T : Table α β ρ) (F' : Facts α β ρ) (P : Set (α × β)) :
    Set (α × β) :=
  P ∪ transitions sl sr T F' P

/-- **A refresh over the pairs `P`**: its pairs and the added ones are answered anew, the keys in
them are listed if they are known and lose their rows if they are not. -/
structure Refreshes (sl : Star α) (sr : Star β) (T T' : Table α β ρ) (F' : Facts α β ρ)
    (P : Set (α × β)) : Prop where
  left_pair : ∀ {a b}, (a, b) ∈ refreshed sl sr T F' P → (a ∈ T'.left ↔ a ∈ F'.left ∧ a ≠ sl.of a)
  left_other : ∀ {a}, (∀ b, (a, b) ∉ refreshed sl sr T F' P) → (a ∈ T'.left ↔ a ∈ T.left)
  right_pair : ∀ {a b}, (a, b) ∈ refreshed sl sr T F' P →
    (b ∈ T'.right ↔ b ∈ F'.right ∧ b ≠ sr.of b)
  right_other : ∀ {b}, (∀ a, (a, b) ∉ refreshed sl sr T F' P) → (b ∈ T'.right ↔ b ∈ T.right)
  rows_pair : ∀ {a b}, (a, b) ∈ refreshed sl sr T F' P →
    ∀ r, (a, b, r) ∈ T'.rows ↔ a ∈ F'.left ∧ b ∈ F'.right ∧ F'.answer a b r
  rows_other : ∀ {a b}, (a, b) ∉ refreshed sl sr T F' P →
    ∀ r, (a, b, r) ∈ T'.rows ↔ (a, b, r) ∈ T.rows ∧
      ((∃ b, (a, b) ∈ refreshed sl sr T F' P) → a ∈ F'.left) ∧
      ((∃ a, (a, b) ∈ refreshed sl sr T F' P) → b ∈ F'.right)

/-- The pairs cover a change of the facts that the table holds: each key that is no longer known,
each known key that is answered and not listed, and each pair of known keys with another answer. -/
structure Covers (sl : Star α) (sr : Star β) (T : Table α β ρ) (F F' : Facts α β ρ)
    (P : Set (α × β)) : Prop where
  gone_left : ∀ a ∈ F.left, a ∉ F'.left → ∃ b, (a, b) ∈ P
  gone_right : ∀ b ∈ F.right, b ∉ F'.right → ∃ a, (a, b) ∈ P
  seen_left : ∀ a ∈ F'.left, a ≠ sl.of a → F'.SeenLeft sl a → a ∉ T.left → ∃ b, (a, b) ∈ P
  seen_right : ∀ b ∈ F'.right, b ≠ sr.of b → F'.SeenRight sr b → b ∉ T.right → ∃ a, (a, b) ∈ P
  answer : ∀ a b r, a ∈ F'.left → b ∈ F'.right → ¬ (F.answer a b r ↔ F'.answer a b r) → (a, b) ∈ P

/-- Two keys that both become known and that are not a pair of the refresh. -/
def Missed (F F' : Facts α β ρ) (P : Set (α × β)) (a : α) (b : β) : Prop :=
  a ∈ F'.left ∧ a ∉ F.left ∧ b ∈ F'.right ∧ b ∉ F.right ∧ (a, b) ∉ P

section Refresh

variable {T T' : Table α β ρ} {F F' : Facts α β ρ} {P : Set (α × β)}

theorem Refreshes.lists_left (hR : Refreshes sl sr T T' F' P) (hE : T.Exact sl sr F)
    (hC : Covers sl sr T F F' P) : Lists sl T'.left F'.left {a | F'.SeenLeft sl a} := by
  have hpair : ∀ {a}, (∃ b, (a, b) ∈ refreshed sl sr T F' P) →
      (a ∈ T'.left ↔ a ∈ F'.left ∧ a ≠ sl.of a) := fun ⟨_, hb⟩ => hR.left_pair hb
  have hother : ∀ {a}, (¬ ∃ b, (a, b) ∈ refreshed sl sr T F' P) → (a ∈ T'.left ↔ a ∈ T.left) :=
    fun h => hR.left_other fun b hb => h ⟨b, hb⟩
  refine ⟨fun a ha => ?_, fun a ha hne hseen => ?_⟩
  · by_cases h : ∃ b, (a, b) ∈ refreshed sl sr T F' P
    · exact (hpair h).mp ha
    · -- a listed key outside the pairs is known as before
      obtain ⟨hk, hne⟩ := hE.left.known_of_listed a ((hother h).mp ha)
      refine ⟨?_, hne⟩
      by_contra hgone
      exact h ((hC.gone_left a hk hgone).imp fun _ hb => .inl hb)
  · by_cases h : ∃ b, (a, b) ∈ refreshed sl sr T F' P
    · exact (hpair h).mpr ⟨ha, hne⟩
    · rw [hother h]
      by_contra hnot
      exact h ((hC.seen_left a ha hne hseen hnot).imp fun _ hb => .inl hb)

theorem Refreshes.lists_right (hR : Refreshes sl sr T T' F' P) (hE : T.Exact sl sr F)
    (hC : Covers sl sr T F F' P) : Lists sr T'.right F'.right {b | F'.SeenRight sr b} := by
  have hpair : ∀ {b}, (∃ a, (a, b) ∈ refreshed sl sr T F' P) →
      (b ∈ T'.right ↔ b ∈ F'.right ∧ b ≠ sr.of b) := fun ⟨_, ha⟩ => hR.right_pair ha
  have hother : ∀ {b}, (¬ ∃ a, (a, b) ∈ refreshed sl sr T F' P) → (b ∈ T'.right ↔ b ∈ T.right) :=
    fun h => hR.right_other fun a ha => h ⟨a, ha⟩
  refine ⟨fun b hb => ?_, fun b hb hne hseen => ?_⟩
  · by_cases h : ∃ a, (a, b) ∈ refreshed sl sr T F' P
    · exact (hpair h).mp hb
    · obtain ⟨hk, hne⟩ := hE.right.known_of_listed b ((hother h).mp hb)
      refine ⟨?_, hne⟩
      by_contra hgone
      exact h ((hC.gone_right b hk hgone).imp fun _ ha => .inl ha)
  · by_cases h : ∃ a, (a, b) ∈ refreshed sl sr T F' P
    · exact (hpair h).mpr ⟨hb, hne⟩
    · rw [hother h]
      by_contra hnot
      exact h ((hC.seen_right b hb hne hseen hnot).imp fun _ ha => .inl ha)

/-- An added pair has a side that was known. -/
theorem known_of_transition (hE : T.Exact sl sr F) {a : α} {b : β}
    (h : (a, b) ∈ transitions sl sr T F' P) : a ∈ F.left ∨ b ∈ F.right := by
  rcases h with ⟨-, -, -, -, r, h⟩ | ⟨-, -, -, -, r, h⟩
  · exact .inr ((hE.mem_rows _ _ _).mp h).2.1
  · exact .inl ((hE.mem_rows _ _ _).mp h).1

/-- A right key that became known is paired with whatever its default had rows with. -/
theorem transition_right (hU : F.Uniform sl sr) (hE : T.Exact sl sr F) (hC : Covers sl sr T F F' P)
    {a : α} {b : β} {r : ρ} (ha : a ∈ F.left) (ha' : a ∈ F'.left) (hb : b ∉ F.right)
    (hb' : b ∈ F'.right) (h : F.answer a b r) (h' : F'.answer a b r) :
    (a, b) ∈ transitions sl sr T F' P := by
  have hstar : sr.of b ∈ F.right := (hU.right_known h).resolve_left hb
  have hne : b ≠ sr.of b := fun he => hb (he ▸ hstar)
  have hnot : b ∉ T.right := fun hl => hb (hE.right.known_of_listed b hl).1
  have hrow : (a, sr.of b, r) ∈ T.rows := (hE.mem_rows _ _ _).mpr ⟨ha, hstar, (hU.right_iff hb).mp h⟩
  exact .inr ⟨hC.seen_right b hb' hne ⟨a, ha', r, .inl h'⟩ hnot, hb', hne, hnot, r, hrow⟩

theorem transition_left (hU : F.Uniform sl sr) (hE : T.Exact sl sr F) (hC : Covers sl sr T F F' P)
    {a : α} {b : β} {r : ρ} (ha : a ∉ F.left) (ha' : a ∈ F'.left) (hb : b ∈ F.right)
    (hb' : b ∈ F'.right) (h : F.answer a b r) (h' : F'.answer a b r) :
    (a, b) ∈ transitions sl sr T F' P := by
  have hstar : sl.of a ∈ F.left := (hU.left_known h).resolve_left ha
  have hne : a ≠ sl.of a := fun he => ha (he ▸ hstar)
  have hnot : a ∉ T.left := fun hl => ha (hE.left.known_of_listed a hl).1
  have hrow : (sl.of a, b, r) ∈ T.rows := (hE.mem_rows _ _ _).mpr ⟨hstar, hb, (hU.left_iff ha).mp h⟩
  exact .inl ⟨hC.seen_left a ha' hne ⟨b, hb', r, .inl h'⟩ hnot, ha', hne, hnot, r, hrow⟩

/-- **The rows after a refresh that covers the change** are the answers for the known keys, less
those of two keys that both became known. -/
theorem Refreshes.mem_rows_iff (hR : Refreshes sl sr T T' F' P) (hU : F.Uniform sl sr)
    (hE : T.Exact sl sr F) (hC : Covers sl sr T F F' P) {a : α} {b : β} {r : ρ} :
    (a, b, r) ∈ T'.rows ↔
      a ∈ F'.left ∧ b ∈ F'.right ∧ F'.answer a b r ∧ ¬ Missed F F' P a b := by
  by_cases hpair : (a, b) ∈ refreshed sl sr T F' P
  · rw [hR.rows_pair hpair]
    have hnot : ¬ Missed F F' P a b := by
      rintro ⟨-, ha, -, hb, hP⟩
      exact (known_of_transition hE (hpair.resolve_left hP)).elim ha hb
    exact and_congr_right fun _ => and_congr_right fun _ => ⟨fun h => ⟨h, hnot⟩, fun h => h.1⟩
  · rw [hR.rows_other hpair, hE.mem_rows]
    have hsame : a ∈ F'.left → b ∈ F'.right → (F.answer a b r ↔ F'.answer a b r) := by
      intro ha hb
      by_contra hne
      exact hpair (.inl (hC.answer a b r ha hb hne))
    constructor
    · rintro ⟨⟨ha, hb, h⟩, hl, hr⟩
      -- a side that was known and is outside the pairs is known still
      have ha' : a ∈ F'.left := by
        by_contra hgone
        exact hgone (hl ((hC.gone_left a ha hgone).imp fun _ h => .inl h))
      have hb' : b ∈ F'.right := by
        by_contra hgone
        exact hgone (hr ((hC.gone_right b hb hgone).imp fun _ h => .inl h))
      exact ⟨ha', hb', (hsame ha' hb').mp h, fun hm => hm.2.1 ha⟩
    · rintro ⟨ha', hb', h, hmiss⟩
      have hold : F.answer a b r := (hsame ha' hb').mpr h
      refine ⟨?_, fun _ => ha', fun _ => hb'⟩
      by_cases ha : a ∈ F.left
      · by_cases hb : b ∈ F.right
        · exact ⟨ha, hb, hold⟩
        · -- the right key became known: its default had a row, so the pair was added
          exact absurd (.inr (transition_right hU hE hC ha ha' hb hb' hold h)) hpair
      · by_cases hb : b ∈ F.right
        · exact absurd (.inr (transition_left hU hE hC ha ha' hb hb' hold h)) hpair
        · exact absurd ⟨ha', ha, hb', hb, fun hP => hpair (.inl hP)⟩ hmiss

/-- A default that becomes known has been answered nothing, so no pair of it is missed. -/
theorem not_missed_of_default_left (hU : F.Uniform sl sr) (hC : Covers sl sr T F F' P) {a : α}
    {b : β} {r : ρ} (ha : a = sl.of a) (h : F'.answer a b r) : ¬ Missed F F' P a b := by
  rintro ⟨ha', hnew, hb', -, hP⟩
  refine hP (hC.answer a b r ha' hb' fun hiff => ?_)
  rcases hU.left_known (hiff.mpr h) with hk | hk
  · exact hnew hk
  · exact hnew (ha ▸ hk)

theorem not_missed_of_default_right (hU : F.Uniform sl sr) (hC : Covers sl sr T F F' P) {a : α}
    {b : β} {r : ρ} (hb : b = sr.of b) (h : F'.answer a b r) : ¬ Missed F F' P a b := by
  rintro ⟨ha', -, hb', hnew, hP⟩
  refine hP (hC.answer a b r ha' hb' fun hiff => ?_)
  rcases hU.right_known (hiff.mpr h) with hk | hk
  · exact hnew hk
  · exact hnew (hb ▸ hk)

/-- **After a refresh that covers the change the table answers right**, except that it denies two
keys that both became known and are not a pair of the refresh. -/
theorem Refreshes.lookup_iff (hR : Refreshes sl sr T T' F' P) (hU : F.Uniform sl sr)
    (hU' : F'.Uniform sl sr) (hE : T.Exact sl sr F) (hC : Covers sl sr T F F' P) {a : α} {b : β}
    {r : ρ} : T'.lookup sl sr a b r ↔ F'.answer a b r ∧ ¬ Missed F F' P a b := by
  rw [T'.lookup_iff_of_rows (hR.lists_left hE hC) (hR.lists_right hE hC) fun h =>
    have h' := (hR.mem_rows_iff hU hE hC).mp h
    ⟨h'.1, h'.2.1, h'.2.2.1⟩]
  rw [hU'.answer_iff]
  constructor
  · rintro ⟨a', b', ha, hb, h⟩
    obtain ⟨hka, hkb, hans, hmiss⟩ := (hR.mem_rows_iff hU hE hC).mp h
    refine ⟨⟨a', b', ha, hb, hka, hkb, hans⟩, ?_⟩
    rintro ⟨ha', hna, hb', hnb, hP⟩
    obtain ⟨-, rfl⟩ := ha.resolve_right fun h => h.1 ha'
    obtain ⟨-, rfl⟩ := hb.resolve_right fun h => h.1 hb'
    exact hmiss ⟨ha', hna, hb', hnb, hP⟩
  · rintro ⟨⟨a', b', ha, hb, hka, hkb, hans⟩, hmiss⟩
    refine ⟨a', b', ha, hb, (hR.mem_rows_iff hU hE hC).mpr ⟨hka, hkb, hans, ?_⟩⟩
    rcases ha with ⟨-, rfl⟩ | ⟨-, rfl⟩
    · rcases hb with ⟨-, rfl⟩ | ⟨-, rfl⟩
      · exact hmiss
      · exact not_missed_of_default_right hU hC (sr.idem _).symm hans
    · exact not_missed_of_default_left hU hC (sl.idem _).symm hans

/-- Where nothing is missed the table is exact again. -/
theorem Refreshes.exact (hR : Refreshes sl sr T T' F' P) (hU : F.Uniform sl sr)
    (hE : T.Exact sl sr F) (hC : Covers sl sr T F F' P)
    (hmiss : ∀ a b r, F'.answer a b r → ¬ Missed F F' P a b) : T'.Exact sl sr F' where
  left := hR.lists_left hE hC
  right := hR.lists_right hE hC
  mem_rows a b r := by
    rw [hR.mem_rows_iff hU hE hC]
    exact and_congr_right fun _ => and_congr_right fun _ =>
      ⟨fun h => h.1, fun h => ⟨h, hmiss a b r h⟩⟩

/-! ## Building a table -/

/-- No key is known. -/
def Facts.none : Facts α β ρ := ⟨∅, ∅, fun _ _ _ => False⟩

/-- No row. -/
def Table.empty : Table α β ρ := ⟨∅, ∅, ∅⟩

theorem Table.empty_exact : (Table.empty : Table α β ρ).Exact sl sr .none where
  left := ⟨fun _ h => h.elim, fun _ h => h.elim⟩
  right := ⟨fun _ h => h.elim, fun _ h => h.elim⟩
  mem_rows _ _ _ := by simp [Table.empty, Facts.none]

theorem Facts.none_uniform : (Facts.none : Facts α β ρ).Uniform sl sr where
  left_iff _ := Iff.rfl
  right_iff _ := Iff.rfl
  left_known h := h.elim
  right_known h := h.elim

/-- **A table built from nothing is exact** when its pairs hold every pair of known keys with an
answer, and every known key whose default has one. -/
theorem Refreshes.build (hR : Refreshes sl sr Table.empty T' F' P)
    (hl : ∀ a ∈ F'.left, ∀ b ∈ F'.right, ∀ r, F'.answer (sl.of a) b r → ∃ b, (a, b) ∈ P)
    (hr : ∀ b ∈ F'.right, ∀ a ∈ F'.left, ∀ r, F'.answer a (sr.of b) r → ∃ a, (a, b) ∈ P)
    (hP : ∀ a b r, a ∈ F'.left → b ∈ F'.right → F'.answer a b r → (a, b) ∈ P) :
    T'.Exact sl sr F' := by
  have hC : Covers sl sr Table.empty .none F' P :=
    { gone_left := fun _ h => h.elim
      gone_right := fun _ h => h.elim
      seen_left := fun a ha _ ⟨b, hb, r, h⟩ _ =>
        h.elim (fun h => ⟨b, hP a b r ha hb h⟩) fun h => hl a ha b hb r h
      seen_right := fun b hb _ ⟨a, ha, r, h⟩ _ =>
        h.elim (fun h => ⟨a, hP a b r ha hb h⟩) fun h => hr b hb a ha r h
      answer := fun a b r ha hb h => by
        refine hP a b r ha hb ?_
        by_contra hne
        exact h ⟨fun h => h.elim, fun h => absurd h hne⟩ }
  exact hR.exact Facts.none_uniform Table.empty_exact hC fun a b r h hm =>
    hm.2.2.2.2 (hP a b r hm.1 hm.2.2.1 h)

end Refresh

end Defaults
