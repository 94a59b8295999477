import StatesLanguage.Numeric.Binary64

/-!
# The shortest decimal that reads back

A double stands for every real number that rounds to it. Among the decimals in
that interval, `Binary64.shortest` picks one on the coarsest grid of powers of
ten that meets the interval at all; of two such neighbours the nearer one, and
in an exact tie the even one. Everything is compared in natural numbers, after
multiplying by the denominators.
-/

namespace StatesLanguage

/-- The nonnegative decimal number `digits * 10 ^ exponent`. -/
structure Decimal where
  /-- The digits, read as a natural number. -/
  digits : Nat
  /-- The place of the last digit. -/
  exponent : Int
deriving DecidableEq

namespace Binary64

/-- Four times the distance from zero to the lower end of the interval, in units
of the last place of the significand. Below a power of two the doubles are twice
as dense. -/
def lowerQuarters (x : Binary64) : Nat :=
  if x.word % binade = 0 ∧ 2 * binade ≤ x.word then 4 * x.significand - 1
  else 4 * x.significand - 2

/-- Four times the distance from zero to the upper end of the interval, in units
of the last place of the significand. -/
def upperQuarters (x : Binary64) : Nat :=
  4 * x.significand + 2

/-- The multiple of `10 ^ place` nearest to the magnitude among those that read
back as `x`, if there is one. Only the two multiples on either side need to be
looked at. -/
def onGrid? (x : Binary64) (place : Int) : Option Decimal :=
  let step := 4 * Nat.pow 10 place.toNat * Nat.pow 2 (-x.exponent).toNat
  let scale := Nat.pow 10 (-place).toNat * Nat.pow 2 x.exponent.toNat
  let value := 4 * x.significand * scale
  let below := value / step
  let above := below + 1
  let lower := x.lowerQuarters * scale
  let upper := x.upperQuarters * scale
  let readsBack := fun n =>
    if x.significand % 2 = 0 then decide (lower ≤ n * step ∧ n * step ≤ upper)
    else decide (lower < n * step ∧ n * step < upper)
  let gapBelow := value - below * step
  let gapAbove := above * step - value
  match readsBack below, readsBack above with
  | true, true =>
    if gapBelow < gapAbove ∨ (gapBelow = gapAbove ∧ below % 2 = 0) then some ⟨below, place⟩
    else some ⟨above, place⟩
  | true, false => some ⟨below, place⟩
  | false, true => some ⟨above, place⟩
  | false, false => none

/-- A place above the first digit of a positive `x`: `0.30103` is just more than
the logarithm of two. -/
def firstPlace (x : Binary64) : Int :=
  (x.significand.log2 + x.exponent + 1) * 30103 / 100000 + 2

/-- The shortest decimal that reads back as the magnitude of `x`. Seventeen
digits always do, and the first place is at most four above the first digit. -/
def shortest (x : Binary64) : Decimal :=
  if x.word = 0 then ⟨0, 0⟩
  else ((List.range 24).findSome? fun (i : Nat) => x.onGrid? (x.firstPlace - i)).getD ⟨0, 0⟩

end Binary64

end StatesLanguage
