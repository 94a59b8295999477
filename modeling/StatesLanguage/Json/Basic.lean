import StatesLanguage.Numeric.Binary64

/-!
# JSON values

A JSON value keeps what its text shows: the order of the members of an object,
and whether a number was written as an integer or as a double. An integer lies in
the joint range of the signed and unsigned 64-bit words; every other number is a
finite double.

Members are looked up with `List.lookup`, which finds the first of a key;
`Json.put` writes a member where its key already stands, or else at the end, so
an object built with it never holds a key twice.

Equality of values, `Json.equiv`, does not see the order of members and
identifies the two zeros, but never an integer with a double.
-/

namespace StatesLanguage

namespace Json

/-! ### Numbers -/

/-- An integer that fits a signed or an unsigned 64-bit word. -/
structure Integer where
  /-- The integer. -/
  value : Int
  /-- It is not below the least signed word. -/
  lower : -0x8000000000000000 ≤ value
  /-- It is not above the greatest unsigned word. -/
  upper : value < 0x10000000000000000
deriving DecidableEq

/-- A number, as an integer or as a double. -/
inductive Number where
  /-- A number written without point and exponent, if it fits. -/
  | int (i : Integer)
  /-- Any other number. -/
  | float (x : Binary64)
deriving DecidableEq

namespace Number

/-- The number as a double. -/
def toBinary64 : Number → Binary64
  | .int i => .ofInt i.value
  | .float x => x

/-- Whether the number is at least one. -/
def atLeastOne : Number → Bool
  | .int i => decide (1 ≤ i.value)
  | .float x => x.atLeastOne

/-- Numerical equality within each of the two spellings. -/
def equiv : Number → Number → Bool
  | .int i, .int j => i.value == j.value
  | .float x, .float y => x.equiv y
  | _, _ => false

/-- The word as an integer. -/
def ofUInt32 (n : UInt32) : Number :=
  .int ⟨n.toNat, by omega, by have := n.toNat_lt; omega⟩

/-- The number as a 32-bit word, if it is an integer in that range. -/
def toUInt32? : Number → Option UInt32
  | .int i => if 0 ≤ i.value ∧ i.value < 0x100000000 then some (.ofNat i.value.toNat) else none
  | .float _ => none

end Number

end Json

/-! ### Values -/

/-- A JSON value. -/
inductive Json where
  /-- The null value. -/
  | null
  /-- A truth value. -/
  | bool (b : Bool)
  /-- A number. -/
  | number (n : Json.Number)
  /-- A string. -/
  | string (s : String)
  /-- An array of items. -/
  | array (items : List Json)
  /-- An object of members, in the order of its text. -/
  | object (members : List (String × Json))

namespace Json

/-- The members of an object, in order. -/
abbrev Members := List (String × Json)

instance : Inhabited Json := ⟨.null⟩

/-- A property of all values follows from its step from the items of an array, and
from the values in an object, to the whole. -/
@[elab_as_elim, induction_eliminator]
theorem induction {P : Json → Prop} (null : P .null) (bool : ∀ b, P (.bool b))
    (number : ∀ n, P (.number n)) (string : ∀ s, P (.string s))
    (array : ∀ items, (∀ v ∈ items, P v) → P (.array items))
    (object : ∀ members : Members, (∀ m ∈ members, P m.2) → P (.object members)) (v : Json) :
    P v :=
  Json.rec (motive_1 := P) (motive_2 := fun items => ∀ v ∈ items, P v)
    (motive_3 := fun members => ∀ m ∈ members, P m.2) (motive_4 := fun m => P m.2)
    null bool number string array object
    (fun _ h => nomatch h) (fun _ _ head tail => List.forall_mem_cons.mpr ⟨head, tail⟩)
    (fun _ h => nomatch h) (fun _ _ head tail => List.forall_mem_cons.mpr ⟨head, tail⟩)
    (fun _ _ h => h) v

/-- The word as a number. -/
def ofUInt32 (n : UInt32) : Json :=
  .number (.ofUInt32 n)

/-- The members, if the value is an object. -/
def members? : Json → Option Members
  | .object ms => some ms
  | _ => none

/-- The text, if the value is a string. -/
def string? : Json → Option String
  | .string s => some s
  | _ => none

/-- Writes a member: in the place of the member of that key, or at the end. -/
def put (key : String) (value : Json) : Members → Members
  | [] => [(key, value)]
  | (k, v) :: ms => if k = key then (k, value) :: ms else (k, v) :: put key value ms

theorem lookup_put (key : String) (value : Json) (ms : Members) :
    (put key value ms).lookup key = some value := by
  induction ms with
  | nil => simp [put]
  | cons m ms ih =>
    obtain ⟨k, v⟩ := m
    by_cases h : k = key
    · simp [put, h]
    · rw [put, if_neg h, List.lookup_cons, beq_eq_false_iff_ne.mpr (Ne.symm h)]
      exact ih

theorem lookup_put_of_ne {key other : String} (h : other ≠ key) (value : Json) (ms : Members) :
    (put key value ms).lookup other = ms.lookup other := by
  induction ms with
  | nil => simp [put, h]
  | cons m ms ih =>
    obtain ⟨k, v⟩ := m
    by_cases hk : k = key
    · subst hk
      simp [put, List.lookup_cons, beq_eq_false_iff_ne.mpr h]
    · rw [put, if_neg hk, List.lookup_cons, List.lookup_cons, ih]

/-! ### Equality -/

mutual

/-- Equality of values, up to the order of members and the sign of zero. -/
def equiv : Json → Json → Bool
  | .null, .null => true
  | .bool a, .bool b => a == b
  | .number m, .number n => m.equiv n
  | .string s, .string t => s == t
  | .array xs, .array ys => itemsEquiv xs ys
  | .object xs, .object ys => xs.length == ys.length && membersEquiv xs ys
  | _, _ => false

/-- Equality of arrays, item by item. -/
def itemsEquiv : List Json → List Json → Bool
  | [], [] => true
  | x :: xs, y :: ys => equiv x y && itemsEquiv xs ys
  | _, _ => false

/-- Whether each of the members is found with an equal value among the others. -/
def membersEquiv : Members → Members → Bool
  | [], _ => true
  | (k, x) :: xs, ys =>
    (match ys.lookup k with
      | some y => equiv x y
      | none => false) && membersEquiv xs ys

end

instance : BEq Json := ⟨equiv⟩

end Json

end StatesLanguage
