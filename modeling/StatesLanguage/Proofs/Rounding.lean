import Mathlib.Algebra.Order.Field.Power
import Mathlib.Data.Rat.Cast.Order
import Mathlib.Tactic.FieldSimp
import Mathlib.Tactic.Linarith
import Mathlib.Tactic.NormNum
import Mathlib.Tactic.Positivity
import Mathlib.Tactic.Ring
import StatesLanguage.Numeric.Shortest

/-!
# Rounding to the nearest double

A double stands for an interval of rational numbers, the ends of which belong to it if its
significand is even: `Binary64.Covers`. Rounding is right if every number in the interval of
a double is rounded to it, and that is `Binary64.nearestWord_of_covers` for quotients and
`Binary64.ofDecimal?_of_covers` for decimals.

The one thing to know is where the interval of a power of two ends. Below it the doubles are
twice as dense, so rounding uses a finer unit there, with a significand that is one too
large. It carries into the exponent, and that gives the word that is looked for.
-/

namespace StatesLanguage

namespace Binary64

/-! ### Powers -/

/-- A power as a quotient of natural powers, one of which is one. -/
theorem zpow_eq_div (b : Nat) (hb : b ≠ 0) (e : Int) :
    (b : ℚ) ^ e = (b ^ e.toNat : ℚ) / b ^ (-e).toNat := by
  have hb' : (b : ℚ) ≠ 0 := Nat.cast_ne_zero.mpr hb
  rw [← zpow_natCast, ← zpow_natCast, ← zpow_sub₀ hb']
  congr 1
  omega

/-- A quotient whose parts are multiplied by powers of two is one over a power of two. -/
theorem scaled_div (num den : Nat) (e : Int) :
    ((num * 2 ^ (-e).toNat : Nat) : ℚ) / (den * 2 ^ e.toNat : Nat) = num / den / 2 ^ e := by
  rw [show (2 : ℚ) = (2 : Nat) from rfl, zpow_eq_div 2 (by decide)]
  push_cast
  field_simp

/-! ### The parts of a word -/

section Parts

variable (x : Binary64)

theorem word_lt : x.word < 2047 * binade :=
  x.finite

theorem significand_lt : x.significand < 2 * binade := by
  have hmod : x.word % binade < binade := Nat.mod_lt _ (by decide)
  rw [significand]
  split <;> omega

theorem significand_le : (x.significand : ℚ) ≤ 9007199254740991 := by
  have : x.significand ≤ 9007199254740991 := Nat.le_of_lt_succ x.significand_lt
  exact_mod_cast this

theorem exponent_bounds : -1074 ≤ x.exponent ∧ x.exponent ≤ 971 := by
  have hword := x.word_lt
  rw [exponent]
  split
  · omega
  · simp only [binade] at *
    omega

/-- **A word is its exponent and its significand**, the hidden bit of which carries. -/
theorem word_eq : x.word = (x.exponent + 1074).toNat * binade + x.significand := by
  rw [exponent, significand]
  split
  · simp
  · simp only [binade] at *
    omega

/-- Above the least exponent, the significand has its hidden bit. -/
theorem binade_le_significand (h : -1074 < x.exponent) : binade ≤ x.significand := by
  rw [exponent] at h
  rw [significand]
  split at h
  · omega
  · next hword => rw [if_neg hword]; omega

theorem lowerQuarters_ge : (4 * x.significand - 2 : ℚ) ≤ x.lowerQuarters := by
  have h : 4 * x.significand ≤ x.lowerQuarters + 2 := by
    rw [lowerQuarters]
    split <;> omega
  have h' : (4 * x.significand : ℚ) ≤ x.lowerQuarters + 2 := by exact_mod_cast h
  linarith

/-- The interval is shorter below a power of two, but for the least one with a hidden bit. -/
theorem lowerQuarters_of_eq_binade (h : -1074 < x.exponent) (hs : x.significand = binade) :
    (x.lowerQuarters : ℚ) = 4 * x.significand - 1 := by
  have hword := x.word_eq
  have hmod : x.word % binade = 0 := by
    rw [hword, hs]
    simp
  have hge : 2 * binade ≤ x.word := by
    simp only [binade] at *
    omega
  rw [lowerQuarters, if_pos ⟨hmod, hge⟩, hs]
  norm_num [binade]

theorem upperQuarters_eq : (x.upperQuarters : ℚ) = 4 * x.significand + 2 := by
  rw [upperQuarters]
  push_cast
  rfl

theorem significand_pos (h : x.word ≠ 0) : 0 < x.significand := by
  rw [significand]
  split <;> simp only [binade] at * <;> omega

/-- Where a word is not zero, its interval is one of positive numbers, around the double. -/
theorem lowerQuarters_bounds (h : x.word ≠ 0) :
    2 ≤ x.lowerQuarters ∧ x.lowerQuarters < 4 * x.significand := by
  have := x.significand_pos h
  rw [lowerQuarters]
  split <;> omega

end Parts

/-! ### Intervals -/

/-- A double stands for a number: the number lies in its interval, and not at an end of it
unless the significand is even. -/
structure Covers (x : Binary64) (v : ℚ) : Prop where
  /-- The number is not below the lower end. -/
  lower : x.lowerQuarters ≤ 4 * (v / 2 ^ x.exponent)
  /-- The number is not above the upper end. -/
  upper : 4 * (v / 2 ^ x.exponent) ≤ x.upperQuarters
  /-- It is above the lower end. -/
  lower_lt : x.significand % 2 = 1 → x.lowerQuarters < 4 * (v / 2 ^ x.exponent)
  /-- It is below the upper end. -/
  lt_upper : x.significand % 2 = 1 → 4 * (v / 2 ^ x.exponent) < x.upperQuarters

/-- A number lies below a power of two exactly if it does in units of another one. -/
theorem div_zpow_lt_iff (v : ℚ) (e k : Int) : v / 2 ^ e < 2 ^ k ↔ v < 2 ^ (e + k) := by
  rw [zpow_add₀ two_ne_zero, div_lt_iff₀ (by positivity), mul_comm]

namespace Covers

variable {x : Binary64} {v : ℚ}

theorem pos (h : x.Covers v) (hx : x.word ≠ 0) : 0 < v := by
  have hlower : (2 : ℚ) ≤ x.lowerQuarters := by exact_mod_cast (x.lowerQuarters_bounds hx).1
  have hpos : 0 < v / 2 ^ x.exponent := by linarith [h.lower]
  exact (div_pos_iff_of_pos_right (by positivity)).mp hpos

/-- In units of the last place, the number is at most one half away from the significand. -/
theorem near (h : x.Covers v) : 4 * (x.significand : ℚ) - 2 ≤ 4 * (v / 2 ^ x.exponent) ∧
    4 * (v / 2 ^ x.exponent) ≤ 4 * x.significand + 2 :=
  ⟨x.lowerQuarters_ge.trans h.lower, h.upper.trans x.upperQuarters_eq.le⟩

theorem lt_zpow (h : x.Covers v) : v < 2 ^ (x.exponent + 53) := by
  rw [← div_zpow_lt_iff]
  norm_num
  linarith [h.near.2, x.significand_le]

/-- The interval of a power of two ends above one half of it. -/
theorem zpow_le_of_eq_binade (h : x.Covers v) (hmin : -1074 < x.exponent)
    (hs : x.significand = binade) : 2 ^ (x.exponent + 51) ≤ v := by
  rw [← not_lt, ← div_zpow_lt_iff]
  have hlower := h.lower
  rw [x.lowerQuarters_of_eq_binade hmin hs, hs] at hlower
  norm_num [binade] at hlower ⊢
  linarith

end Covers

/-! ### Rounding a quotient -/

/-- A quotient is rounded to the number that is at most one half away, an odd one only if it
is nearer than that. -/
theorem roundDiv_eq {n d m : Nat} (hd : 0 < d) (lower : 2 * (m * d) ≤ 2 * n + d)
    (upper : 2 * n ≤ 2 * (m * d) + d)
    (odd : m % 2 = 1 → 2 * (m * d) < 2 * n + d ∧ 2 * n < 2 * (m * d) + d) :
    roundDiv n d = m := by
  have hn := Nat.div_add_mod n d
  have hr := Nat.mod_lt n hd
  have hle : m ≤ n / d + 1 := by
    by_contra h
    have := Nat.mul_le_mul_right d (show n / d + 2 ≤ m by omega)
    rw [Nat.add_mul, Nat.mul_comm (n / d)] at this
    omega
  have hge : n / d ≤ m := by
    by_contra h
    have := Nat.mul_le_mul_right d (show m + 1 ≤ n / d by omega)
    rw [Nat.add_mul, Nat.mul_comm (n / d)] at this
    omega
  rw [roundDiv]
  rcases (show m = n / d ∨ m = n / d + 1 by omega) with rfl | rfl
  · rw [Nat.mul_comm (n / d)] at *
    exact if_neg (by omega)
  · rw [Nat.add_mul, Nat.mul_comm (n / d)] at *
    exact if_pos (by omega)

/-- The same, by the value of the quotient. -/
theorem roundDiv_eq_of_near {n d m : Nat} (hd : 0 < d) {v : ℚ} (hv : (n : ℚ) / d = v)
    (lower : 4 * m - 2 ≤ 4 * v) (upper : 4 * v ≤ 4 * m + 2)
    (odd : m % 2 = 1 → 4 * m - 2 < 4 * v ∧ 4 * v < 4 * m + 2) : roundDiv n d = m := by
  have hd' : (0 : ℚ) < d := by exact_mod_cast hd
  have hn : (n : ℚ) = v * d := by rw [← hv]; field_simp
  refine roundDiv_eq hd ?_ ?_ fun hm => ⟨?_, ?_⟩
  · have : (2 * (m * d) : ℚ) ≤ 2 * n + d := by rw [hn]; nlinarith
    exact_mod_cast this
  · have : (2 * n : ℚ) ≤ 2 * (m * d) + d := by rw [hn]; nlinarith
    exact_mod_cast this
  · have : (2 * (m * d) : ℚ) < 2 * n + d := by rw [hn]; nlinarith [odd hm]
    exact_mod_cast this
  · have : (2 * n : ℚ) < 2 * (m * d) + d := by rw [hn]; nlinarith [odd hm]
    exact_mod_cast this

theorem zpow_log2_le {n : Nat} (hn : n ≠ 0) :
    (2 : ℚ) ^ (n.log2 : Int) ≤ n ∧ (n : ℚ) < 2 ^ (n.log2 + 1 : Int) :=
  ⟨by exact_mod_cast Nat.log2_self_le hn, by exact_mod_cast Nat.lt_log2_self⟩

section Order

variable {num den : Nat}

/-- A quotient is compared to a power of two without dividing. -/
theorem mul_pow_lt_iff (hden : den ≠ 0) (e : Int) :
    num * Nat.pow 2 (-e).toNat < den * Nat.pow 2 e.toNat ↔ (num / den : ℚ) < 2 ^ e := by
  have hden' : (0 : ℚ) < den := by exact_mod_cast Nat.pos_of_ne_zero hden
  rw [show (2 : ℚ) = (2 : Nat) from rfl, zpow_eq_div 2 (by decide),
    div_lt_div_iff₀ hden' (by positivity), mul_comm _ (den : ℚ)]
  exact_mod_cast Iff.rfl

/-- The orders of both parts of a quotient leave two orders for the quotient. -/
theorem log2_sub_log2_bounds (hnum : num ≠ 0) (hden : den ≠ 0) :
    (2 : ℚ) ^ ((num.log2 : Int) - den.log2 - 1) ≤ num / den ∧
      (num / den : ℚ) < 2 ^ ((num.log2 : Int) - den.log2 + 1) := by
  have hden' : (0 : ℚ) < den := by exact_mod_cast Nat.pos_of_ne_zero hden
  obtain ⟨hnumlow, hnumhigh⟩ := zpow_log2_le hnum
  obtain ⟨hdenlow, hdenhigh⟩ := zpow_log2_le hden
  constructor
  · rw [le_div_iff₀ hden']
    calc (2 : ℚ) ^ ((num.log2 : Int) - den.log2 - 1) * den
        ≤ 2 ^ ((num.log2 : Int) - den.log2 - 1) * 2 ^ (den.log2 + 1 : Int) :=
          mul_le_mul_of_nonneg_left hdenhigh.le (by positivity)
      _ = 2 ^ (num.log2 : Int) := by
          rw [← zpow_add₀ two_ne_zero]
          congr 1
          omega
      _ ≤ num := hnumlow
  · rw [div_lt_iff₀ hden']
    calc (num : ℚ) < 2 ^ (num.log2 + 1 : Int) := hnumhigh
      _ = 2 ^ ((num.log2 : Int) - den.log2 + 1) * 2 ^ (den.log2 : Int) := by
          rw [← zpow_add₀ two_ne_zero]
          congr 1
          omega
      _ ≤ 2 ^ ((num.log2 : Int) - den.log2 + 1) * den :=
          mul_le_mul_of_nonneg_left hdenlow (by positivity)

/-- **The order of a quotient**: the power of two below it. -/
theorem binaryOrder_spec (hnum : num ≠ 0) (hden : den ≠ 0) :
    (2 : ℚ) ^ binaryOrder num den ≤ num / den ∧
      (num / den : ℚ) < 2 ^ (binaryOrder num den + 1) := by
  obtain ⟨hlow, hhigh⟩ := log2_sub_log2_bounds hnum hden
  rw [binaryOrder]
  split
  · next h =>
    refine ⟨hlow, ?_⟩
    rw [Int.sub_add_cancel]
    exact (mul_pow_lt_iff hden _).mp h
  · next h => exact ⟨not_lt.mp fun hlt => h ((mul_pow_lt_iff hden _).mpr hlt), hhigh⟩

end Order

/-- **The unit of rounding** is the unit in the last place of a double, for the numbers in its
interval. But for those below a power of two it is half of that. -/
theorem Covers.unit_cases {x : Binary64} {v : ℚ} (h : x.Covers v) {q : Int}
    (hlow : 2 ^ q ≤ v) (hhigh : v < 2 ^ (q + 1)) :
    max (-1074) (q - 52) = x.exponent ∨
      (max (-1074) (q - 52) = x.exponent - 1 ∧ -1074 < x.exponent ∧ x.significand = binade ∧
        v / 2 ^ x.exponent < binade) := by
  obtain ⟨hemin, -⟩ := x.exponent_bounds
  have hlt : q < x.exponent + 53 :=
    (zpow_lt_zpow_iff_right₀ one_lt_two).mp (hlow.trans_lt h.lt_zpow)
  by_cases he : max (-1074) (q - 52) = x.exponent
  · exact Or.inl he
  · -- the number is less than every significand with a hidden bit, so this is the least one
    have h52 : v / 2 ^ x.exponent < 4503599627370496 := by
      have : v / 2 ^ x.exponent < 2 ^ (52 : Int) := (div_zpow_lt_iff _ _ _).mpr
        (hhigh.trans_le (zpow_le_zpow_right₀ one_le_two (by omega)))
      norm_num at this
      exact this
    have hbinade : x.significand = binade := by
      refine le_antisymm ?_ (x.binade_le_significand (by omega))
      have : (x.significand : ℚ) < 4503599627370497 := by linarith [h.near.1]
      exact Nat.le_of_lt_succ (by exact_mod_cast this)
    have h51 : x.exponent + 51 ≤ q :=
      Int.lt_add_one_iff.mp ((zpow_lt_zpow_iff_right₀ one_lt_two).mp
        ((h.zpow_le_of_eq_binade (by omega) hbinade).trans_lt hhigh))
    exact Or.inr ⟨by omega, by omega, hbinade, by norm_num [binade]; exact h52⟩

/-- **Every number in the interval of a double is rounded to it.** -/
theorem nearestWord_of_covers {x : Binary64} {num den : Nat} (hden : den ≠ 0)
    (hx : x.word ≠ 0) (h : x.Covers (num / den)) : nearestWord num den = x.word := by
  have hnum : num ≠ 0 := by
    rintro rfl
    simpa using h.pos hx
  have hpos (k : Nat) : 0 < den * 2 ^ k :=
    Nat.mul_pos (Nat.pos_of_ne_zero hden) (Nat.two_pow_pos k)
  have hscaled := scaled_div num den
  obtain ⟨hqlow, hqhigh⟩ := binaryOrder_spec hnum hden
  rw [nearestWord, if_neg hnum]
  simp only [Nat.pow_eq]
  rcases h.unit_cases hqlow hqhigh with he | ⟨he, hexponent, hbinade, hbelow⟩
  · -- the significand is the nearest integer
    rw [he, x.word_eq, roundDiv_eq_of_near (hpos _) (hscaled _) h.near.1 h.near.2 fun hodd =>
      ⟨x.lowerQuarters_ge.trans_lt (h.lower_lt hodd),
        (h.lt_upper hodd).trans_le x.upperQuarters_eq.le⟩]
  · -- the nearest integer is twice the significand
    have hhalf : (num / den : ℚ) / 2 ^ (x.exponent - 1) = 2 * (num / den / 2 ^ x.exponent) := by
      rw [zpow_sub₀ two_ne_zero]
      field_simp
    have hlower := h.lower
    rw [x.lowerQuarters_of_eq_binade hexponent hbinade, hbinade] at hlower
    norm_num [binade] at hlower hbelow
    rw [he, x.word_eq, hbinade, roundDiv_eq_of_near (m := 2 * binade) (hpos _)
      ((hscaled _).trans hhalf)]
    · simp only [binade]
      omega
    · norm_num [binade]
      linarith
    · norm_num [binade]
      linarith
    · exact fun h => absurd h (by decide)

/-! ### Rounding a decimal -/

/-- The digits of a natural number tell its order. -/
theorem digits_bounds {n : Nat} (hn : n ≠ 0) :
    10 ^ ((Nat.toDigits 10 n).length - 1) ≤ n ∧ n < 10 ^ (Nat.toDigits 10 n).length := by
  have hpos : 0 < (Nat.toDigits 10 n).length := Nat.length_toDigits_pos
  constructor
  · by_contra h
    rcases Nat.eq_zero_or_pos ((Nat.toDigits 10 n).length - 1) with hk | hk
    · rw [hk] at h
      omega
    · have := (Nat.length_toDigits_le_iff (by decide) hk).mpr (not_le.mp h)
      omega
  · exact (Nat.length_toDigits_le_iff (by decide) hpos).mp le_rfl

/-- The places of a decimal before its point tell its order. -/
theorem places_bounds {n : Nat} (hn : n ≠ 0) (e : Int) :
    (10 : ℚ) ^ ((Nat.toDigits 10 n).length + e - 1) ≤ n * 10 ^ e ∧
      (n * 10 ^ e : ℚ) < 10 ^ ((Nat.toDigits 10 n).length + e) := by
  obtain ⟨hlow, hhigh⟩ := digits_bounds hn
  have hlength : 0 < (Nat.toDigits 10 n).length := Nat.length_toDigits_pos
  have hscale : (0 : ℚ) < 10 ^ e := by positivity
  constructor
  · rw [show ((Nat.toDigits 10 n).length : Int) + e - 1 =
      ((Nat.toDigits 10 n).length - 1 : Nat) + e by omega, zpow_add₀ (by decide), zpow_natCast]
    refine mul_le_mul_of_nonneg_right ?_ hscale.le
    exact_mod_cast hlow
  · rw [zpow_add₀ (by decide), zpow_natCast]
    refine mul_lt_mul_of_pos_right ?_ hscale
    exact_mod_cast hhigh

/-- The powers of ten beyond all doubles. -/
theorem largest_lt : (2 : ℚ) ^ (1024 : Int) < 10 ^ (309 : Int) := by
  have h : 2 ^ 1024 < 10 ^ 309 := by decide +kernel
  exact_mod_cast h

theorem lt_least : (10 : ℚ) ^ (-330 : Int) < 2 ^ (-1075 : Int) := by
  have h : 2 ^ 1075 < 10 ^ 330 := by decide +kernel
  have h' : (2 : ℚ) ^ (1075 : Int) < 10 ^ (330 : Int) := by exact_mod_cast h
  rw [zpow_neg, zpow_neg]
  exact (inv_lt_inv₀ (by positivity) (by positivity)).mpr h'

/-- Positive doubles stand for numbers that are neither too large nor too small. -/
theorem Covers.bounds {x : Binary64} {v : ℚ} (h : x.Covers v) (hx : x.word ≠ 0) :
    2 ^ (-1075 : Int) ≤ v ∧ v < 2 ^ (1024 : Int) := by
  obtain ⟨hmin, hmax⟩ := x.exponent_bounds
  constructor
  · have hlower : (2 : ℚ) ≤ x.lowerQuarters := by exact_mod_cast (x.lowerQuarters_bounds hx).1
    have hhalf : (2 : ℚ) ^ (-1 : Int) ≤ v / 2 ^ x.exponent := by
      norm_num
      linarith [h.lower]
    refine le_trans (zpow_le_zpow_right₀ one_le_two ?_)
      (not_lt.mp (mt (div_zpow_lt_iff v x.exponent (-1)).mpr (not_lt.mpr hhalf)))
    omega
  · exact h.lt_zpow.trans_le (zpow_le_zpow_right₀ one_le_two (by omega))

/-- **Every decimal in the interval of a double is rounded to it**, as none of them has too
many places before or behind the point. -/
theorem ofDecimal?_of_covers {x : Binary64} {n : Nat} {e : Int} (hx : x.word ≠ 0)
    (h : x.Covers (n * 10 ^ e)) (negative : Bool) :
    ofDecimal? negative n e = some ⟨negative, x.word, x.finite⟩ := by
  have hn : n ≠ 0 := by
    rintro rfl
    simpa using h.pos hx
  obtain ⟨hlow, hhigh⟩ := h.bounds hx
  obtain ⟨hfirst, hlast⟩ := places_bounds hn e
  have hplaces := (zpow_lt_zpow_iff_right₀ (by norm_num)).mp
    ((hfirst.trans_lt hhigh).trans largest_lt)
  have hplaces_ge := (zpow_lt_zpow_iff_right₀ (by norm_num)).mp
    (lt_least.trans (hlow.trans_lt hlast))
  have hratio : ((n * 10 ^ e.toNat : Nat) : ℚ) / (10 ^ (-e).toNat : Nat) = n * 10 ^ e := by
    rw [show (10 : ℚ) = (10 : Nat) from rfl, zpow_eq_div 10 (by decide)]
    push_cast
    exact mul_div_assoc _ _ _
  rw [ofDecimal?, if_neg hn, if_neg (by omega), if_neg (by omega), ofRatio?]
  simp only [Nat.pow_eq]
  rw [nearestWord_of_covers (Nat.pow_pos (by decide)).ne' hx (hratio ▸ h), ofWord?,
    dif_pos x.finite]

end Binary64

end StatesLanguage
