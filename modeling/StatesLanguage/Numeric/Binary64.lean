/-!
# Finite doubles, exactly

A finite binary64 number is kept as its sign and the place of its magnitude
among the nonnegative doubles in ascending order. That place is also the lower
63 bits of its encoding, so the order of magnitudes is the order of words and
nothing is ever computed in floating point:

* `Binary64.significand` and `Binary64.exponent` give the value, which is
  `significand * 2 ^ exponent`;
* `Binary64.ofRatio?` rounds a quotient of natural numbers to the nearest
  double, a tie going to the even significand, and fails beyond the largest one;
* `Binary64.ofDecimal?` does the same for `digits * 10 ^ exponent`.

A builder may also be handed one of the three doubles that are not finite;
`Double` has them beside the finite ones.
-/

namespace StatesLanguage

/-- How many words share an exponent: `2 ^ 52`. It is also the hidden bit. -/
def Binary64.binade : Nat :=
  0x10000000000000

/-- The least word that is not finite, that of infinity. -/
def Binary64.limit : Nat :=
  0x7FF0000000000000

/-- The word of `1.0`. -/
def Binary64.one : Nat :=
  0x3FF0000000000000

/-- A finite binary64 number: its sign, and the place of its magnitude among the
nonnegative doubles. -/
structure Binary64 where
  /-- Whether the sign bit is set. -/
  negative : Bool
  /-- The lower 63 bits of the encoding. -/
  word : Nat
  /-- The exponent field is not the one of the infinities. -/
  finite : word < Binary64.limit
deriving DecidableEq

namespace Binary64

/-! ### The value of a word -/

/-- The integral significand, with the hidden bit of a normal number. -/
def significand (x : Binary64) : Nat :=
  if x.word < binade then x.word else binade + x.word % binade

/-- The power of two that scales the significand. -/
def exponent (x : Binary64) : Int :=
  if x.word < binade then -1074 else (x.word / binade : Nat) - 1075

/-- The zero of the given sign. -/
def zero (negative : Bool) : Binary64 :=
  ⟨negative, 0, by decide⟩

/-- The finite double of largest magnitude. -/
def largest (negative : Bool) : Binary64 :=
  ⟨negative, limit - 1, by decide⟩

/-- Whether the number is at least one. -/
def atLeastOne (x : Binary64) : Bool :=
  !x.negative && decide (one ≤ x.word)

/-- Numerical equality, under which the two zeros are equal. -/
def equiv (x y : Binary64) : Bool :=
  x.word == y.word && (x.negative == y.negative || x.word == 0)

/-! ### Rounding to nearest -/

/-- The quotient rounded to the nearest natural number, a tie going to the even
one. -/
def roundDiv (num den : Nat) : Nat :=
  let floor := num / den
  let twice := 2 * (num % den)
  if den < twice ∨ (twice = den ∧ floor % 2 = 1) then floor + 1 else floor

/-- The exponent of the largest power of two that does not exceed `num / den`. -/
def binaryOrder (num den : Nat) : Int :=
  let estimate : Int := num.log2 - den.log2
  if num * Nat.pow 2 (-estimate).toNat < den * Nat.pow 2 estimate.toNat then estimate - 1
  else estimate

/-- The word of the double nearest to `num / den`. A significand that rounds up
to `2 ^ 53` carries into the exponent field by itself. -/
def nearestWord (num den : Nat) : Nat :=
  if num = 0 then 0
  else
    let e := max (-1074) (binaryOrder num den - 52)
    (e + 1074).toNat * binade +
      roundDiv (num * Nat.pow 2 (-e).toNat) (den * Nat.pow 2 e.toNat)

/-- The number of the given sign and word, if that word is finite. -/
def ofWord? (negative : Bool) (word : Nat) : Option Binary64 :=
  if h : word < limit then some ⟨negative, word, h⟩ else none

/-- The double nearest to `num / den`, unless it is too large to be finite. -/
def ofRatio? (negative : Bool) (num den : Nat) : Option Binary64 :=
  ofWord? negative (nearestWord num den)

/-- The double nearest to an integer, cut off at the largest finite ones. -/
def ofInt (i : Int) : Binary64 :=
  let negative := decide (i < 0)
  (ofRatio? negative i.natAbs 1).getD (largest negative)

/-- The double nearest to `digits * 10 ^ exponent`, unless it is too large to be
finite. A number of more than 310 places before the point is too large and one
with its first digit more than 330 places behind it is nearer to zero than to
any other double, whatever the digits, so no power of ten beyond that is ever
computed. -/
def ofDecimal? (negative : Bool) (digits : Nat) (exponent : Int) : Option Binary64 :=
  let places := (Nat.toDigits 10 digits).length + exponent
  if digits = 0 then some (zero negative)
  else if 310 < places then none
  else if places < -330 then some (zero negative)
  else
    ofRatio? negative (digits * Nat.pow 10 exponent.toNat) (Nat.pow 10 (-exponent).toNat)

end Binary64

/-! ### Doubles that are not finite -/

/-- The doubles that no JSON number can spell. -/
inductive NonFinite where
  /-- Not a number. -/
  | nan
  /-- The infinity of the given sign. -/
  | infinity (negative : Bool)
deriving DecidableEq

/-- Any double, the encodings of NaN being one. -/
inductive Double where
  /-- A number. -/
  | finite (x : Binary64)
  /-- NaN or an infinity. -/
  | nonFinite (x : NonFinite)
deriving DecidableEq

/-- The text of a double that is not finite. -/
def NonFinite.text : NonFinite → String
  | .nan => "NaN"
  | .infinity false => "inf"
  | .infinity true => "-inf"

end StatesLanguage
