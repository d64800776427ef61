import Mathlib.Data.Rat.Defs
import Mathlib.Data.List.Basic

/-!
# Documents

The values of the type `jsonb`, with the operators that gates use. The keys of an object are distinct. A
number keeps its scale, which its text shows; two numbers are equal when their values are.

## Main definitions

* `Json`: a value
* `Json.get?`, `Json.set`, `Json.at?`: reading and writing fields
* `Json.stripNulls`: `jsonb_strip_nulls`
* `Json.contains`: the operator `@>`
* `Jsonb`: a value of the type `jsonb`

## Main results

* `Json.stripNulls_of_nullFree`: a value without null members is kept
* `Json.get?_stripNulls`: the fields of a stripped object
-/

namespace PgAuthz.Gates

/-- A decimal number. -/
structure Numeric where
  coefficient : ℤ
  scale : ℕ
deriving DecidableEq, Repr

/-- The value of a decimal number. -/
def Numeric.value (n : Numeric) : ℚ := n.coefficient / 10 ^ n.scale

/-- A JSON value. -/
inductive Json
  | null
  | bool (b : Bool)
  | num (n : Numeric)
  | str (s : String)
  | arr (items : List Json)
  | obj (members : List (String × Json))

namespace Json

/-! ## Fields -/

/-- The operator `->` with a key. -/
def get? : Json → String → Option Json
  | obj members, key => members.lookup key
  | _, _ => none

/-- The operator `?` on an object. -/
def hasKey (j : Json) (key : String) : Bool := (j.get? key).isSome

/-- The operator `->>` on a field that is a string. -/
def text? (j : Json) (key : String) : Option String :=
  match j.get? key with
  | some (str s) => some s
  | _ => none

/-- `jsonb_object_keys`. -/
def keys : Json → List String
  | obj members => members.map Prod.fst
  | _ => []

/-- A list of members with the value of a key replaced. -/
def setMember (key : String) (value : Json) : List (String × Json) → List (String × Json)
  | [] => []
  | m :: ms => (if m.1 = key then (key, value) else m) :: setMember key value ms

/-- `jsonb_set` at a key that is there. -/
def set (j : Json) (key : String) (value : Json) : Json :=
  match j with
  | obj members => obj (setMember key value members)
  | j => j

/-- An element of an array; a negative index counts from the end. -/
def item? (items : List Json) (i : ℤ) : Option Json :=
  if 0 ≤ i then items[i.toNat]?
  else if (-i).toNat ≤ items.length then items[items.length - (-i).toNat]? else none

/-- The index that a step of a path names: decimal digits with a sign. -/
def arrayIndex (key : String) : Option ℤ := if '_' ∈ key.toList then none else key.toInt?

/-- The operator `#>`. -/
def at? (j : Json) : List String → Option Json
  | [] => some j
  | key :: path =>
    match j with
    | obj members => (members.lookup key).bind fun v => v.at? path
    | arr items => ((arrayIndex key).bind (item? items)).bind fun v => v.at? path
    | _ => none

/-! ## Null members -/

mutual

/-- `jsonb_strip_nulls`: the members whose value is null are left out, at every depth. -/
def stripNulls : Json → Json
  | arr items => arr (stripItems items)
  | obj members => obj (stripMembers members)
  | null => null
  | bool b => bool b
  | num n => num n
  | str s => str s

def stripItems : List Json → List Json
  | [] => []
  | v :: vs => stripNulls v :: stripItems vs

def stripMembers : List (String × Json) → List (String × Json)
  | [] => []
  | (_, null) :: ms => stripMembers ms
  | (k, v) :: ms => (k, stripNulls v) :: stripMembers ms

end

mutual

/-- No object in the value has a member that is null. -/
def nullFree : Json → Bool
  | arr items => nullFreeItems items
  | obj members => nullFreeMembers members
  | null => true
  | bool _ => true
  | num _ => true
  | str _ => true

def nullFreeItems : List Json → Bool
  | [] => true
  | v :: vs => nullFree v && nullFreeItems vs

def nullFreeMembers : List (String × Json) → Bool
  | [] => true
  | (_, null) :: _ => false
  | (_, v) :: ms => nullFree v && nullFreeMembers ms

end

mutual

/-- The keys of every object in the value are distinct. -/
def unique : Json → Bool
  | arr items => uniqueItems items
  | obj members => (members.map Prod.fst).Nodup && uniqueMembers members
  | null => true
  | bool _ => true
  | num _ => true
  | str _ => true

def uniqueItems : List Json → Bool
  | [] => true
  | v :: vs => unique v && uniqueItems vs

def uniqueMembers : List (String × Json) → Bool
  | [] => true
  | (_, v) :: ms => unique v && uniqueMembers ms

end

/-! ## Containment -/

/-- Two values that are no containers are equal. -/
def scalarEq : Json → Json → Bool
  | null, null => true
  | bool a, bool b => a = b
  | num a, num b => a.value = b.value
  | str a, str b => a = b
  | _, _ => false

mutual

/-- The operator `@>`. -/
def contains : Json → Json → Bool
  | l, obj rs => match l with
    | obj ls => containsMembers ls rs
    | _ => false
  | l, arr rs => match l with
    | arr ls => containsItems ls rs
    | _ => false
  | l, null => scalarEq l null
  | l, bool b => scalarEq l (bool b)
  | l, num n => scalarEq l (num n)
  | l, str s => scalarEq l (str s)

def containsMembers (ls : List (String × Json)) : List (String × Json) → Bool
  | [] => true
  | (k, v) :: rs =>
    (match ls.lookup k with
      | some l => contains l v
      | none => false) && containsMembers ls rs

def containsItems (ls : List Json) : List Json → Bool
  | [] => true
  | v :: rs => (ls.any fun l => contains l v) && containsItems ls rs

end

end Json

/-- A value of the type `jsonb`. -/
structure Jsonb where
  val : Json
  unique : val.unique = true

namespace Json

/-! ## Reading what has been written -/

variable {j v : Json} {k k' : String} {ms : List (String × Json)}

theorem lookup_setMember_ne (h : k' ≠ k) : (setMember k v ms).lookup k' = ms.lookup k' := by
  induction ms with
  | nil => rfl
  | cons m ms ih =>
    have hne : (k' == k) = false := beq_false_of_ne h
    rw [setMember, List.lookup_cons, List.lookup_cons, ih]
    by_cases hm : m.1 = k
    · simp [hm, hne]
    · simp [hm]

theorem lookup_setMember (h : (ms.lookup k).isSome) : (setMember k v ms).lookup k = some v := by
  induction ms with
  | nil => cases h
  | cons m ms ih =>
    rw [setMember, List.lookup_cons]
    by_cases hm : m.1 = k
    · simp [hm]
    · have hne : (k == m.1) = false := beq_false_of_ne (Ne.symm hm)
      rw [List.lookup_cons, hne] at h
      rw [if_neg hm, hne]
      exact ih h

theorem setMember_setMember {v' : Json} :
    setMember k v' (setMember k v ms) = setMember k v' ms := by
  induction ms with
  | nil => rfl
  | cons m ms ih =>
    rw [setMember, setMember, setMember, ih]
    by_cases hm : m.1 = k <;> simp [hm]

theorem map_fst_setMember : (setMember k v ms).map Prod.fst = ms.map Prod.fst := by
  induction ms with
  | nil => rfl
  | cons m ms ih =>
    rw [setMember, List.map_cons, List.map_cons, ih]
    by_cases hm : m.1 = k <;> simp [hm]

theorem get?_set_ne (h : k' ≠ k) : (j.set k v).get? k' = j.get? k' := by
  cases j with
  | obj ms => exact lookup_setMember_ne h
  | _ => rfl

theorem get?_set (h : j.hasKey k = true) : (j.set k v).get? k = some v := by
  cases j with
  | obj ms => exact lookup_setMember h
  | _ => cases h

theorem set_set {v' : Json} : (j.set k v).set k v' = j.set k v' := by
  cases j with
  | obj ms => exact congrArg obj setMember_setMember
  | _ => rfl

theorem keys_set : (j.set k v).keys = j.keys := by
  cases j with
  | obj ms => exact map_fst_setMember
  | _ => rfl

/-! ## Distinct keys -/

/-- A member of an object with distinct keys is what its key reads. -/
theorem lookup_of_mem (hms : (ms.map Prod.fst).Nodup) (h : (k, v) ∈ ms) : ms.lookup k = some v := by
  induction ms with
  | nil => cases h
  | cons m ms ih =>
    rw [List.map_cons, List.nodup_cons] at hms
    rw [List.lookup_cons]
    rcases List.mem_cons.mp h with rfl | h
    · rw [beq_self_eq_true]
    · have hne : k ≠ m.1 := fun heq => hms.1 (heq ▸ List.mem_map_of_mem h)
      rw [beq_false_of_ne hne]
      exact ih hms.2 h

theorem unique_of_mem_items {vs : List Json} (hvs : uniqueItems vs = true) (h : v ∈ vs) :
    v.unique = true := by
  induction vs with
  | nil => cases h
  | cons w vs ih =>
    rw [uniqueItems, Bool.and_eq_true] at hvs
    rcases List.mem_cons.mp h with rfl | h
    · exact hvs.1
    · exact ih hvs.2 h

theorem unique_of_mem_members (hms : uniqueMembers ms = true) (h : (k, v) ∈ ms) : v.unique = true := by
  induction ms with
  | nil => cases h
  | cons m ms ih =>
    rw [uniqueMembers, Bool.and_eq_true] at hms
    rcases List.mem_cons.mp h with rfl | h
    · exact hms.1
    · exact ih hms.2 h

theorem nodup_of_unique (h : (obj ms).unique = true) : (ms.map Prod.fst).Nodup := by
  rw [unique, Bool.and_eq_true, decide_eq_true_eq] at h
  exact h.1

/-- The keys in a field are distinct. -/
theorem unique_of_get? (hj : j.unique = true) (h : j.get? k = some v) : v.unique = true := by
  cases j with
  | obj ms =>
    rw [unique, Bool.and_eq_true] at hj
    obtain ⟨l₁, l₂, rfl, -⟩ := List.lookup_eq_some_iff.mp h
    exact unique_of_mem_members (k := k) hj.2 (by simp)
  | _ => cases h

/-! ## Stripping -/

theorem stripMembers_cons (h : v ≠ null) :
    stripMembers ((k, v) :: ms) = (k, v.stripNulls) :: stripMembers ms := by
  cases v with
  | null => exact absurd rfl h
  | _ => rfl

theorem nullFreeMembers_cons (h : v ≠ null) :
    nullFreeMembers ((k, v) :: ms) = (v.nullFree && nullFreeMembers ms) := by
  cases v with
  | null => exact absurd rfl h
  | _ => rfl

theorem ne_null_of_nullFreeMembers (h : nullFreeMembers ((k, v) :: ms) = true) : v ≠ null := by
  rintro rfl
  cases h

mutual

/-- A value without null members is kept. -/
theorem stripNulls_of_nullFree : ∀ {j : Json}, j.nullFree = true → j.stripNulls = j
  | arr items, h => by
    rw [stripNulls, stripItems_of_nullFree h]
  | obj members, h => by
    rw [stripNulls, stripMembers_of_nullFree h]
  | null, _ => rfl
  | bool _, _ => rfl
  | num _, _ => rfl
  | str _, _ => rfl

theorem stripItems_of_nullFree : ∀ {vs : List Json}, nullFreeItems vs = true → stripItems vs = vs
  | [], _ => rfl
  | v :: vs, h => by
    rw [nullFreeItems, Bool.and_eq_true] at h
    rw [stripItems, stripNulls_of_nullFree h.1, stripItems_of_nullFree h.2]

theorem stripMembers_of_nullFree :
    ∀ {ms : List (String × Json)}, nullFreeMembers ms = true → stripMembers ms = ms
  | [], _ => rfl
  | (k, v) :: ms, h => by
    have hv := ne_null_of_nullFreeMembers h
    rw [nullFreeMembers_cons hv, Bool.and_eq_true] at h
    rw [stripMembers_cons hv, stripNulls_of_nullFree h.1, stripMembers_of_nullFree h.2]

end

theorem lookup_stripMembers (h : ms.lookup k = some v) (hv : v ≠ null) :
    (stripMembers ms).lookup k = some v.stripNulls := by
  induction ms with
  | nil => cases h
  | cons m ms ih =>
    obtain ⟨k', v'⟩ := m
    rw [List.lookup_cons] at h
    cases hk : k == k' with
    | true =>
      rw [hk] at h
      obtain rfl := Option.some.inj h
      rw [stripMembers_cons hv, List.lookup_cons, hk]
    | false =>
      rw [hk] at h
      by_cases hv' : v' = null
      · subst hv'
        exact ih h
      · rw [stripMembers_cons hv', List.lookup_cons, hk]
        exact ih h

/-- A field of a stripped object. -/
theorem get?_stripNulls (h : j.get? k = some v) (hv : v ≠ null) :
    j.stripNulls.get? k = some v.stripNulls := by
  cases j with
  | obj ms => exact lookup_stripMembers h hv
  | _ => cases h

end Json

end PgAuthz.Gates
