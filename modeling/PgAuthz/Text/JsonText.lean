import Mathlib.Data.List.Basic

/-!
# The text of a document

Documents as `encoding/json` writes them: no spaces, the entries of a map in the order of their keys,
and strings with escapes. The text of a document can be read back, also where other text follows it, so
that different documents have different texts.

## Main definitions

* `Document`: a decoded document
* `marshal`: its text
* `Closes`: what may follow the text of a document inside another one

## Main results

* `marshal_append_inj`: a text is the text of one document only, whatever follows
* `marshal_injective`: different documents have different texts
* `newline_not_mem_marshal`: the text of a document is one line
-/

namespace JsonText

/-- The characters of numbers. -/
def numberChar (c : Char) : Bool := c.isDigit || c = '-' || c = '+' || c = '.' || c = 'e'

/-- A number, by the shortest decimal that reads as it. -/
structure NumberText where
  chars : List Char
  ne_nil : chars ≠ []
  valid : ∀ c ∈ chars, numberChar c = true

/-- A decoded document; a map is the list of its entries in the order of their keys. -/
inductive Document
  | null
  | bool (b : Bool)
  | num (n : NumberText)
  | str (s : List Char)
  | arr (items : List Document)
  | obj (fields : List (List Char × Document))

/-- The four digits of a `\u` escape. -/
def hex4 (n : ℕ) : List Char :=
  [n / 4096 % 16, n / 256 % 16, n / 16 % 16, n % 16].map Nat.digitChar

/-- A character inside a string. Besides what must be escaped, the characters of HTML are, and two
separators of lines. -/
def escape (c : Char) : List Char :=
  if c = '"' then ['\\', '"']
  else if c = '\\' then ['\\', '\\']
  else if c = '\n' then ['\\', 'n']
  else if c = '\r' then ['\\', 'r']
  else if c = '\t' then ['\\', 't']
  else if c = '\x08' then ['\\', 'b']
  else if c = '\x0c' then ['\\', 'f']
  else if c.toNat < 32 ∨ c = '<' ∨ c = '>' ∨ c = '&' ∨ c.toNat = 0x2028 ∨ c.toNat = 0x2029 then
    '\\' :: 'u' :: hex4 c.toNat
  else [c]

/-- A string in quotes. -/
def quote (s : List Char) : List Char := '"' :: s.flatMap escape ++ ['"']

mutual

/-- `json.Marshal` -/
def marshal : Document → List Char
  | .null => ['n', 'u', 'l', 'l']
  | .bool true => ['t', 'r', 'u', 'e']
  | .bool false => ['f', 'a', 'l', 's', 'e']
  | .num n => n.chars
  | .str s => quote s
  | .arr items => '[' :: marshalItems items
  | .obj fields => '{' :: marshalFields fields

def marshalItems : List Document → List Char
  | [] => [']']
  | v :: vs => marshal v ++ moreItems vs

def moreItems : List Document → List Char
  | [] => [']']
  | v :: vs => ',' :: (marshal v ++ moreItems vs)

def marshalFields : List (List Char × Document) → List Char
  | [] => ['}']
  | (k, v) :: fs => quote k ++ ':' :: (marshal v ++ moreFields fs)

def moreFields : List (List Char × Document) → List Char
  | [] => ['}']
  | (k, v) :: fs => ',' :: (quote k ++ ':' :: (marshal v ++ moreFields fs))

end

/-! ## Strings -/

/-- The value of a hexadecimal digit. -/
def digitValue (c : Char) : ℕ := ((List.range 16).find? fun d => Nat.digitChar d = c).getD 0

/-- Reads one character of a string back. -/
def readChar : List Char → Option (Char × List Char)
  | '\\' :: 'u' :: a :: b :: c :: d :: r =>
    some (Char.ofNat (digitValue a * 4096 + digitValue b * 256 + digitValue c * 16 + digitValue d), r)
  | '\\' :: 'n' :: r => some ('\n', r)
  | '\\' :: 'r' :: r => some ('\r', r)
  | '\\' :: 't' :: r => some ('\t', r)
  | '\\' :: 'b' :: r => some ('\x08', r)
  | '\\' :: 'f' :: r => some ('\x0c', r)
  | '\\' :: c :: r => some (c, r)
  | '"' :: _ => none
  | c :: r => some (c, r)
  | [] => none

theorem digitValue_digitChar {d : ℕ} (h : d < 16) : digitValue (Nat.digitChar d) = d := by
  have hall : ∀ d < 16, digitValue (Nat.digitChar d) = d := by decide
  exact hall d h

theorem readChar_hex4 {n : ℕ} (h : n < 65536) (r : List Char) :
    readChar ('\\' :: 'u' :: hex4 n ++ r) = some (Char.ofNat n, r) := by
  have hdigit : ∀ m, digitValue (Nat.digitChar (m % 16)) = m % 16 := fun m =>
    digitValue_digitChar (Nat.mod_lt m (by decide))
  simp only [hex4, List.map_cons, List.map_nil, List.cons_append, List.nil_append, readChar, hdigit]
  congr 3
  omega

/-- What a character is written as reads as it, whatever follows. -/
theorem readChar_escape (c : Char) (r : List Char) : readChar (escape c ++ r) = some (c, r) := by
  unfold escape
  split
  · rename_i h
    simp [readChar, h]
  split
  · rename_i h
    simp [readChar, h]
  split
  · rename_i h
    simp [readChar, h]
  split
  · rename_i h
    simp [readChar, h]
  split
  · rename_i h
    simp [readChar, h]
  split
  · rename_i h
    simp [readChar, h]
  split
  · rename_i h
    simp [readChar, h]
  split
  · rename_i h
    have hlt : c.toNat < 65536 := by
      rcases h with h | rfl | rfl | rfl | h | h
      · omega
      · decide
      · decide
      · decide
      · omega
      · omega
    have hchar : Char.ofNat c.toNat = c := Char.ofNat_toNat c
    rw [readChar_hex4 hlt, hchar]
  · rename_i hquote hback _ _ _ _ _ _
    rw [List.singleton_append]
    unfold readChar
    split <;> simp_all

theorem readChar_quote (r : List Char) : readChar ('"' :: r) = none := by
  simp [readChar]

/-- A quoted string is the text of one string only, whatever follows. -/
theorem quote_append_inj {s s' r r' : List Char} (h : quote s ++ r = quote s' ++ r') :
    s = s' ∧ r = r' := by
  have hbody : ∀ s s' : List Char, s.flatMap escape ++ '"' :: r = s'.flatMap escape ++ '"' :: r' →
      s = s' ∧ r = r' := by
    intro s
    induction s with
    | nil =>
      intro s' h
      cases s' with
      | nil => exact ⟨rfl, (List.cons.inj h).2⟩
      | cons c s' =>
        have hread := congrArg readChar h
        rw [List.flatMap_cons, List.append_assoc, readChar_escape, List.flatMap_nil,
          List.nil_append, readChar_quote] at hread
        cases hread
    | cons c s ih =>
      intro s' h
      have hread := congrArg readChar h
      rw [List.flatMap_cons, List.append_assoc, readChar_escape] at hread
      cases s' with
      | nil =>
        rw [List.flatMap_nil, List.nil_append, readChar_quote] at hread
        cases hread
      | cons c' s' =>
        rw [List.flatMap_cons, List.append_assoc, readChar_escape] at hread
        obtain ⟨rfl, hrest⟩ := Prod.mk.inj (Option.some.inj hread)
        obtain ⟨rfl, hr⟩ := ih s' hrest
        exact ⟨rfl, hr⟩
  simp only [quote, List.cons_append, List.append_assoc, List.nil_append, List.cons.injEq,
    true_and] at h
  exact hbody s s' h

/-! ## Documents -/

/-- What may follow the text of a document: nothing, or a separator or the end of a list or a map. -/
def Closes (r : List Char) : Prop := ∀ c ∈ r.head?, c = ',' ∨ c = ']' ∨ c = '}'

/-- The kind of a document, by the first character of its text. -/
def startKind : List Char → ℕ
  | 'n' :: _ => 0
  | 't' :: _ => 1
  | 'f' :: _ => 1
  | '"' :: _ => 3
  | '[' :: _ => 4
  | '{' :: _ => 5
  | _ => 2

/-- The kind of a document. -/
def Document.kind : Document → ℕ
  | .null => 0
  | .bool _ => 1
  | .num _ => 2
  | .str _ => 3
  | .arr _ => 4
  | .obj _ => 5

theorem startKind_number {c : Char} (hc : numberChar c = true) (r : List Char) :
    startKind (c :: r) = 2 := by
  unfold startKind
  split <;> simp_all [numberChar, Char.isDigit]

theorem startKind_marshal (v : Document) (r : List Char) : startKind (marshal v ++ r) = v.kind := by
  cases v with
  | null => simp [marshal, startKind, Document.kind]
  | bool b => cases b <;> simp [marshal, startKind, Document.kind]
  | num n =>
    obtain ⟨c, cs, hcs⟩ := List.exists_cons_of_ne_nil n.ne_nil
    rw [marshal, hcs, List.cons_append]
    exact startKind_number (n.valid c (by rw [hcs]; exact List.mem_cons_self)) _
  | str s => simp [marshal, quote, startKind, Document.kind]
  | arr items => simp [marshal, startKind, Document.kind]
  | obj fields => simp [marshal, startKind, Document.kind]

/-- A number ends where what follows it begins. -/
theorem takeWhile_chars {n : NumberText} {r : List Char} (hr : Closes r) :
    (n.chars ++ r).takeWhile numberChar = n.chars := by
  rw [List.takeWhile_append_of_pos n.valid]
  cases r with
  | nil => simp
  | cons c r =>
    have hc : numberChar c = false := by
      rcases hr c rfl with rfl | rfl | rfl <;> decide
    rw [List.takeWhile_cons_of_neg (by simp [hc]), List.append_nil]

theorem chars_append_inj {n n' : NumberText} {r r' : List Char} (hr : Closes r) (hr' : Closes r')
    (h : n.chars ++ r = n'.chars ++ r') : n = n' ∧ r = r' := by
  have hchars : n.chars = n'.chars := by
    rw [← takeWhile_chars hr, h, takeWhile_chars hr']
  refine ⟨?_, List.append_cancel_left (hchars ▸ h)⟩
  cases n
  cases n'
  cases hchars
  rfl

theorem closes_moreItems (vs : List Document) (r : List Char) : Closes (moreItems vs ++ r) := by
  cases vs <;> simp [moreItems, Closes]

theorem closes_moreFields (fs : List (List Char × Document)) (r : List Char) :
    Closes (moreFields fs ++ r) := by
  cases fs <;> simp [moreFields, Closes]

/-- The end of a list or a map is not the beginning of a document. -/
theorem ne_marshal_append {c : Char} (hc : c = ']' ∨ c = '}') {v : Document} {r r' : List Char} :
    c :: r ≠ marshal v ++ r' := by
  intro h
  cases v with
  | null => rcases hc with rfl | rfl <;> simp [marshal] at h
  | bool b => cases b <;> rcases hc with rfl | rfl <;> simp [marshal] at h
  | num n =>
    obtain ⟨d, ds, hds⟩ := List.exists_cons_of_ne_nil n.ne_nil
    have hd := n.valid d (by rw [hds]; exact List.mem_cons_self)
    rw [marshal, hds] at h
    rw [← (List.cons.inj h).1] at hd
    rcases hc with rfl | rfl <;> exact absurd hd (by decide)
  | str s => rcases hc with rfl | rfl <;> simp [marshal, quote] at h
  | arr items => rcases hc with rfl | rfl <;> simp [marshal] at h
  | obj fields => rcases hc with rfl | rfl <;> simp [marshal] at h

mutual

/-- **A text is the text of one document only**, whatever may follow it. -/
theorem marshal_append_inj : ∀ (v v' : Document) {r r' : List Char}, Closes r → Closes r' →
    marshal v ++ r = marshal v' ++ r' → v = v' ∧ r = r'
  | v, v', r, r', hr, hr', h => by
    have hkind : v.kind = v'.kind := by
      rw [← startKind_marshal v r, h, startKind_marshal]
    match v, v' with
    | .null, .null => simpa [marshal] using h
    | .bool b, .bool b' => cases b <;> cases b' <;> simp_all [marshal]
    | .num n, .num n' =>
      obtain ⟨rfl, hrest⟩ := chars_append_inj hr hr' h
      exact ⟨rfl, hrest⟩
    | .str s, .str s' =>
      obtain ⟨rfl, hrest⟩ := quote_append_inj h
      exact ⟨rfl, hrest⟩
    | .arr vs, .arr vs' =>
      obtain ⟨rfl, hrest⟩ := marshalItems_append_inj vs vs' hr hr' (List.cons.inj h).2
      exact ⟨rfl, hrest⟩
    | .obj fs, .obj fs' =>
      obtain ⟨rfl, hrest⟩ := marshalFields_append_inj fs fs' hr hr' (List.cons.inj h).2
      exact ⟨rfl, hrest⟩

theorem marshalItems_append_inj : ∀ (vs vs' : List Document) {r r' : List Char}, Closes r →
    Closes r' → marshalItems vs ++ r = marshalItems vs' ++ r' → vs = vs' ∧ r = r'
  | [], [], r, r', _, _, h => ⟨rfl, (List.cons.inj h).2⟩
  | [], v' :: vs', r, r', _, _, h => by
    rw [marshalItems, marshalItems, List.append_assoc] at h
    exact absurd h (ne_marshal_append (.inl rfl))
  | v :: vs, [], r, r', _, _, h => by
    rw [marshalItems, marshalItems, List.append_assoc] at h
    exact absurd h.symm (ne_marshal_append (.inl rfl))
  | v :: vs, v' :: vs', r, r', hr, hr', h => by
    rw [marshalItems, marshalItems, List.append_assoc, List.append_assoc] at h
    obtain ⟨rfl, hmore⟩ := marshal_append_inj v v' (closes_moreItems vs r)
      (closes_moreItems vs' r') h
    obtain ⟨rfl, hrest⟩ := moreItems_append_inj vs vs' hr hr' hmore
    exact ⟨rfl, hrest⟩

theorem moreItems_append_inj : ∀ (vs vs' : List Document) {r r' : List Char}, Closes r →
    Closes r' → moreItems vs ++ r = moreItems vs' ++ r' → vs = vs' ∧ r = r'
  | [], [], r, r', _, _, h => ⟨rfl, (List.cons.inj h).2⟩
  | [], v' :: vs', r, r', _, _, h => by simp [moreItems] at h
  | v :: vs, [], r, r', _, _, h => by simp [moreItems] at h
  | v :: vs, v' :: vs', r, r', hr, hr', h => by
    rw [moreItems, moreItems, List.cons_append, List.cons_append, List.append_assoc,
      List.append_assoc] at h
    obtain ⟨rfl, hmore⟩ := marshal_append_inj v v' (closes_moreItems vs r) (closes_moreItems vs' r')
      (List.cons.inj h).2
    obtain ⟨rfl, hrest⟩ := moreItems_append_inj vs vs' hr hr' hmore
    exact ⟨rfl, hrest⟩

theorem marshalFields_append_inj : ∀ (fs fs' : List (List Char × Document)) {r r' : List Char},
    Closes r → Closes r' → marshalFields fs ++ r = marshalFields fs' ++ r' → fs = fs' ∧ r = r'
  | [], [], r, r', _, _, h => ⟨rfl, (List.cons.inj h).2⟩
  | [], (k', v') :: fs', r, r', _, _, h => by simp [marshalFields, quote] at h
  | (k, v) :: fs, [], r, r', _, _, h => by simp [marshalFields, quote] at h
  | (k, v) :: fs, (k', v') :: fs', r, r', hr, hr', h => by
    rw [marshalFields, marshalFields, List.append_assoc, List.append_assoc] at h
    obtain ⟨rfl, hvalue⟩ := quote_append_inj h
    rw [List.cons_append, List.cons_append, List.cons.injEq, List.append_assoc,
      List.append_assoc] at hvalue
    obtain ⟨rfl, hmore⟩ := marshal_append_inj v v' (closes_moreFields fs r)
      (closes_moreFields fs' r') hvalue.2
    obtain ⟨rfl, hrest⟩ := moreFields_append_inj fs fs' hr hr' hmore
    exact ⟨rfl, hrest⟩

theorem moreFields_append_inj : ∀ (fs fs' : List (List Char × Document)) {r r' : List Char},
    Closes r → Closes r' → moreFields fs ++ r = moreFields fs' ++ r' → fs = fs' ∧ r = r'
  | [], [], r, r', _, _, h => ⟨rfl, (List.cons.inj h).2⟩
  | [], (k', v') :: fs', r, r', _, _, h => by simp [moreFields] at h
  | (k, v) :: fs, [], r, r', _, _, h => by simp [moreFields] at h
  | (k, v) :: fs, (k', v') :: fs', r, r', hr, hr', h => by
    rw [moreFields, moreFields, List.cons_append, List.cons_append, List.cons.injEq,
      List.append_assoc, List.append_assoc] at h
    obtain ⟨rfl, hvalue⟩ := quote_append_inj h.2
    rw [List.cons_append, List.cons_append, List.cons.injEq, List.append_assoc,
      List.append_assoc] at hvalue
    obtain ⟨rfl, hmore⟩ := marshal_append_inj v v' (closes_moreFields fs r)
      (closes_moreFields fs' r') hvalue.2
    obtain ⟨rfl, hrest⟩ := moreFields_append_inj fs fs' hr hr' hmore
    exact ⟨rfl, hrest⟩

end

/-- **Different documents have different texts.** -/
theorem marshal_injective : Function.Injective marshal := by
  intro v v' h
  have hnil : Closes [] := fun c hc => (nomatch hc)
  exact (marshal_append_inj v v' hnil hnil (by rw [h])).1

/-! ## Texts on one line -/

theorem newline_not_mem_escape (c : Char) : '\n' ∉ escape c := by
  have hdigit : ∀ d < 16, Nat.digitChar d ≠ '\n' := by decide
  have hhex : ∀ n, '\n' ∉ hex4 n := by
    intro n hn
    obtain ⟨d, hd, heq⟩ := List.mem_map.mp hn
    have hlt : d < 16 := by
      simp only [List.mem_cons, List.not_mem_nil, or_false] at hd
      omega
    exact hdigit d hlt heq
  unfold escape
  split_ifs with h1 h2 h3 <;> simp [hhex]
  exact fun h => h3 h.symm

theorem newline_not_mem_quote (s : List Char) : '\n' ∉ quote s := by
  simp [quote, newline_not_mem_escape]

mutual

/-- **The text of a document is one line.** -/
theorem newline_not_mem_marshal : ∀ v : Document, '\n' ∉ marshal v
  | .null => by simp [marshal]
  | .bool b => by cases b <;> simp [marshal]
  | .num n => by
    intro h
    have hvalid := n.valid _ h
    exact absurd hvalid (by decide)
  | .str s => newline_not_mem_quote s
  | .arr items => by
    rw [marshal, List.mem_cons, not_or]
    exact ⟨by decide, newline_not_mem_marshalItems items⟩
  | .obj fields => by
    rw [marshal, List.mem_cons, not_or]
    exact ⟨by decide, newline_not_mem_marshalFields fields⟩

theorem newline_not_mem_marshalItems : ∀ vs : List Document, '\n' ∉ marshalItems vs
  | [] => by simp [marshalItems]
  | v :: vs => by
    rw [marshalItems, List.mem_append, not_or]
    exact ⟨newline_not_mem_marshal v, newline_not_mem_moreItems vs⟩

theorem newline_not_mem_moreItems : ∀ vs : List Document, '\n' ∉ moreItems vs
  | [] => by simp [moreItems]
  | v :: vs => by
    rw [moreItems, List.mem_cons, List.mem_append, not_or, not_or]
    exact ⟨by decide, newline_not_mem_marshal v, newline_not_mem_moreItems vs⟩

theorem newline_not_mem_marshalFields :
    ∀ fs : List (List Char × Document), '\n' ∉ marshalFields fs
  | [] => by simp [marshalFields]
  | (k, v) :: fs => by
    rw [marshalFields, List.mem_append, List.mem_cons, List.mem_append, not_or, not_or, not_or]
    exact ⟨newline_not_mem_quote k, by decide, newline_not_mem_marshal v,
      newline_not_mem_moreFields fs⟩

theorem newline_not_mem_moreFields : ∀ fs : List (List Char × Document), '\n' ∉ moreFields fs
  | [] => by simp [moreFields]
  | (k, v) :: fs => by
    rw [moreFields, List.mem_cons, List.mem_append, List.mem_cons, List.mem_append, not_or, not_or,
      not_or, not_or]
    exact ⟨by decide, newline_not_mem_quote k, by decide, newline_not_mem_marshal v,
      newline_not_mem_moreFields fs⟩

end

theorem exists_moreFields_eq (fs : List (List Char × Document)) : ∃ l, moreFields fs = l ++ ['}'] := by
  induction fs with
  | nil => exact ⟨[], by rw [moreFields]; rfl⟩
  | cons f fs ih =>
    obtain ⟨l, hl⟩ := ih
    exact ⟨',' :: (quote f.1 ++ ':' :: (marshal f.2 ++ l)), by rw [moreFields, hl]; simp⟩

/-- A map is written in braces. -/
theorem exists_marshal_obj (fs : List (List Char × Document)) :
    ∃ l, marshal (.obj fs) = '{' :: (l ++ ['}']) := by
  cases fs with
  | nil => exact ⟨[], by rw [marshal, marshalFields]; rfl⟩
  | cons f fs =>
    obtain ⟨l, hl⟩ := exists_moreFields_eq fs
    exact ⟨quote f.1 ++ ':' :: (marshal f.2 ++ l), by rw [marshal, marshalFields, hl]; simp⟩

end JsonText
