import StatesLanguage.Proofs.Rounding

/-!
# The shortest decimal reads back

The decimal that `Binary64.shortest` picks for a double lies in the interval of the double
(`Binary64.shortest_covers`), and so it is rounded to the double again.

That it is found at all is the other half of the matter. The grids become finer by one place
at a time, and on one whose step is at most a quarter of the last place of the significand
the multiple below the double is in its interval. The last grid that is tried is fine enough
for every double, by the two estimates of powers of ten in `Binary64.ten_zpow_le`.
-/

namespace StatesLanguage

namespace Binary64

/-! ### One grid -/

section Grid

variable (x : Binary64) (place : Int)

/-- The step of a grid, in the units of `gridScale`. -/
def gridStep : Nat :=
  4 * Nat.pow 10 place.toNat * Nat.pow 2 (-x.exponent).toNat

/-- The common denominator of the numbers that are compared on a grid. -/
def gridScale : Nat :=
  Nat.pow 10 (-place).toNat * Nat.pow 2 x.exponent.toNat

/-- The multiple on a grid that is below a double. -/
def gridBelow : Nat :=
  4 * x.significand * x.gridScale place / x.gridStep place

/-- Whether a multiple of a power of ten is in the interval of a double. -/
def readsBack (n : Nat) : Bool :=
  if x.significand % 2 = 0 then
    decide (x.lowerQuarters * x.gridScale place ≤ n * x.gridStep place ∧
      n * x.gridStep place ≤ x.upperQuarters * x.gridScale place)
  else
    decide (x.lowerQuarters * x.gridScale place < n * x.gridStep place ∧
      n * x.gridStep place < x.upperQuarters * x.gridScale place)

theorem onGrid?_eq : x.onGrid? place =
    match x.readsBack place (x.gridBelow place), x.readsBack place (x.gridBelow place + 1) with
    | true, true =>
      let value := 4 * x.significand * x.gridScale place
      let gapBelow := value - x.gridBelow place * x.gridStep place
      let gapAbove := (x.gridBelow place + 1) * x.gridStep place - value
      if gapBelow < gapAbove ∨ (gapBelow = gapAbove ∧ x.gridBelow place % 2 = 0) then
        some ⟨x.gridBelow place, place⟩
      else some ⟨x.gridBelow place + 1, place⟩
    | true, false => some ⟨x.gridBelow place, place⟩
    | false, true => some ⟨x.gridBelow place + 1, place⟩
    | false, false => none := rfl

theorem gridScale_pos : (0 : ℚ) < x.gridScale place :=
  Nat.cast_pos.mpr (Nat.mul_pos (Nat.pow_pos (by decide)) (Nat.pow_pos (by decide)))

/-- The two in terms of each other. -/
theorem gridStep_eq : (x.gridStep place : ℚ) =
    4 * (10 ^ place / 2 ^ x.exponent) * x.gridScale place := by
  rw [show (10 : ℚ) = (10 : Nat) from rfl, show (2 : ℚ) = (2 : Nat) from rfl,
    zpow_eq_div 10 (by decide), zpow_eq_div 2 (by decide), gridStep, gridScale]
  simp only [Nat.pow_eq]
  push_cast
  field_simp

variable {x place}

/-- **The comparison in natural numbers is the one that is meant.** -/
theorem readsBack_iff {n : Nat} : x.readsBack place n = true ↔ x.Covers (n * 10 ^ place) := by
  have hscale := x.gridScale_pos place
  have hstep : ((n * x.gridStep place : Nat) : ℚ) =
      4 * (n * 10 ^ place / 2 ^ x.exponent) * x.gridScale place := by
    rw [Nat.cast_mul, x.gridStep_eq place]
    ring
  have hle (a : Nat) : a * x.gridScale place ≤ n * x.gridStep place ↔
      (a : ℚ) ≤ 4 * (n * 10 ^ place / 2 ^ x.exponent) := by
    rw [← Nat.cast_le (α := ℚ), hstep, Nat.cast_mul, mul_le_mul_iff_left₀ hscale]
  have hge (a : Nat) : n * x.gridStep place ≤ a * x.gridScale place ↔
      4 * (n * 10 ^ place / 2 ^ x.exponent) ≤ (a : ℚ) := by
    rw [← Nat.cast_le (α := ℚ), hstep, Nat.cast_mul, mul_le_mul_iff_left₀ hscale]
  rw [readsBack]
  split
  · next heven =>
    rw [decide_eq_true_iff, hle, hge]
    exact ⟨fun h => ⟨h.1, h.2, fun hodd => by omega, fun hodd => by omega⟩,
      fun h => ⟨h.lower, h.upper⟩⟩
  · next hodd =>
    rw [decide_eq_true_iff, ← not_le, ← not_le, hle, hge, not_le, not_le]
    exact ⟨fun h => ⟨h.1.le, h.2.le, fun _ => h.1, fun _ => h.2⟩,
      fun h => ⟨h.lower_lt (by omega), h.lt_upper (by omega)⟩⟩

/-- What is found on a grid is on it, and reads back. -/
theorem covers_of_onGrid? {d : Decimal} (h : x.onGrid? place = some d) :
    x.Covers (d.digits * 10 ^ d.exponent) := by
  have hd : d.exponent = place ∧ x.readsBack place d.digits = true := by
    rw [onGrid?_eq] at h
    split at h
    · next hbelow habove =>
      dsimp only at h
      split at h <;> obtain rfl := Option.some.inj h
      · exact ⟨rfl, hbelow⟩
      · exact ⟨rfl, habove⟩
    · next hbelow _ =>
      obtain rfl := Option.some.inj h
      exact ⟨rfl, hbelow⟩
    · next _ habove =>
      obtain rfl := Option.some.inj h
      exact ⟨rfl, habove⟩
    · nomatch h
  rw [hd.1]
  exact readsBack_iff.mp hd.2

/-- The multiple below a double is less than a step away from it. -/
theorem gridBelow_bounds (x : Binary64) (place : Int) :
    4 * (x.gridBelow place * 10 ^ place / 2 ^ x.exponent : ℚ) ≤ 4 * x.significand ∧
      4 * (x.significand : ℚ) < 4 * (x.gridBelow place * 10 ^ place / 2 ^ x.exponent) +
        4 * (10 ^ place / 2 ^ x.exponent) := by
  have hscale := x.gridScale_pos place
  have hstep : 0 < x.gridStep place :=
    Nat.mul_pos (Nat.mul_pos (by decide) (Nat.pow_pos (by decide))) (Nat.pow_pos (by decide))
  have hle : x.gridBelow place * x.gridStep place ≤ 4 * x.significand * x.gridScale place :=
    Nat.div_mul_le_self _ _
  have hlt : 4 * x.significand * x.gridScale place <
      x.gridBelow place * x.gridStep place + x.gridStep place := Nat.lt_div_mul_add hstep
  rw [← Nat.cast_le (α := ℚ)] at hle
  rw [← Nat.cast_lt (α := ℚ)] at hlt
  push_cast [x.gridStep_eq place] at hle hlt
  rw [mul_div_assoc]
  generalize (10 : ℚ) ^ place / 2 ^ x.exponent = step at hle hlt ⊢
  constructor
  · refine le_of_mul_le_mul_right ?_ hscale
    linarith
  · refine lt_of_mul_lt_mul_right ?_ hscale.le
    linarith

/-- **A fine grid meets the interval.** -/
theorem isSome_onGrid? (hx : x.word ≠ 0) (hfine : 4 * (10 : ℚ) ^ place ≤ 2 ^ x.exponent) :
    (x.onGrid? place).isSome = true := by
  have hbelow : x.readsBack place (x.gridBelow place) = true := by
    obtain ⟨hle, hlt⟩ := x.gridBelow_bounds place
    have hstep : 4 * (10 ^ place / 2 ^ x.exponent : ℚ) ≤ 1 := by
      rw [← mul_div_assoc]
      exact div_le_one_of_le₀ hfine (by positivity)
    have hlower : (x.lowerQuarters : ℚ) ≤ 4 * x.significand - 1 := by
      have := (x.lowerQuarters_bounds hx).2
      have : (x.lowerQuarters + 1 : ℚ) ≤ 4 * x.significand := by exact_mod_cast this
      linarith
    have hupper := x.upperQuarters_eq
    refine readsBack_iff.mpr ⟨?_, ?_, fun _ => ?_, fun _ => ?_⟩ <;> linarith
  rw [onGrid?_eq, hbelow]
  cases x.readsBack place (x.gridBelow place + 1) with
  | false => rfl
  | true =>
    dsimp only
    split <;> rfl

end Grid

/-! ### All grids -/

/-- **Powers of ten and of two**, by `10 ^ 3 < 2 ^ 10` and by `2 ^ 33 < 10 ^ 10`. -/
theorem ten_zpow_le {p k : Int} (hpos : 0 ≤ p → 10 * p ≤ 3 * k)
    (hneg : p < 0 → 33 * p ≤ 10 * k) : (10 : ℚ) ^ p ≤ 2 ^ k := by
  rcases le_or_gt 0 p with hp | hp
  · refine le_of_pow_le_pow_left₀ (n := 3) (by decide) (by positivity) ?_
    calc ((10 : ℚ) ^ p) ^ 3 = (10 ^ 3) ^ p := by rw [← zpow_natCast, zpow_comm, zpow_natCast]
      _ ≤ (2 ^ 10) ^ p := zpow_le_zpow_left₀ hp (by norm_num) (by norm_num)
      _ = 2 ^ (10 * p) := by rw [zpow_mul]; rfl
      _ ≤ 2 ^ (3 * k) := zpow_le_zpow_right₀ one_le_two (hpos hp)
      _ = (2 ^ k) ^ 3 := by rw [mul_comm, zpow_mul]; rfl
  · refine le_of_pow_le_pow_left₀ (n := 10) (by decide) (by positivity) ?_
    calc ((10 : ℚ) ^ p) ^ 10 = (10 ^ 10) ^ p := by rw [← zpow_natCast, zpow_comm, zpow_natCast]
      _ ≤ (2 ^ 33) ^ p := by
        obtain ⟨q, rfl⟩ : ∃ q, p = -q := ⟨-p, by omega⟩
        rw [zpow_neg, zpow_neg]
        apply inv_anti₀ (by positivity)
        exact zpow_le_zpow_left₀ (by omega) (by norm_num) (by norm_num)
      _ = 2 ^ (33 * p) := by rw [zpow_mul]; rfl
      _ ≤ 2 ^ (10 * k) := zpow_le_zpow_right₀ one_le_two (hneg hp)
      _ = (2 ^ k) ^ 10 := by rw [mul_comm, zpow_mul]; rfl

theorem last_grid_fine (x : Binary64) :
    4 * (10 : ℚ) ^ (x.firstPlace - 23) ≤ 2 ^ x.exponent := by
  have hlog : x.significand.log2 ≤ 52 := by
    rcases Nat.eq_zero_or_pos x.significand with hs | hs
    · rw [hs]
      decide
    · exact Nat.le_of_lt_succ ((Nat.log2_lt hs.ne').mpr x.significand_lt)
  obtain ⟨hmin, hmax⟩ := x.exponent_bounds
  have h : (10 : ℚ) ^ (x.firstPlace - 23) ≤ 2 ^ (x.exponent - 2) :=
    ten_zpow_le (fun _ => by rw [firstPlace]; omega) (fun _ => by rw [firstPlace]; omega)
  rw [zpow_sub₀ two_ne_zero] at h
  norm_num at h
  linarith

/-- **The shortest decimal of a double reads back as the double.** -/
theorem shortest_covers {x : Binary64} (hx : x.word ≠ 0) :
    x.Covers (x.shortest.digits * 10 ^ x.shortest.exponent) := by
  have hfound : ((List.range 24).findSome? fun (i : Nat) =>
      x.onGrid? (x.firstPlace - i)).isSome = true := by
    rw [List.isSome_findSome?, List.any_eq_true]
    exact ⟨23, by decide, isSome_onGrid? hx x.last_grid_fine⟩
  obtain ⟨d, hd⟩ := Option.isSome_iff_exists.mp hfound
  obtain ⟨i, -, hi⟩ := List.exists_of_findSome?_eq_some hd
  rw [shortest, if_neg hx, hd]
  exact covers_of_onGrid? hi

end Binary64

end StatesLanguage
