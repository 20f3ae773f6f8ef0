import Lox.Proofs.Decimal.Interval

/-
  The shortest decimal of a double reads back as the double.

  A grid is searched in whole units, so small that both the
  fourth part of the spacing of the doubles and the spacing of
  the grid are multiples of them. A point that is found lies in
  the interval of the double; and one is always found, since the
  last grid of the search is finer than the interval.

  Key definitions include:
    * `Dyadic.unitsPerOne`
    * `Dyadic.isHit`
    * `Dyadic.isHit_iff`
    * `Dyadic.shortest_rounds`
-/

------------------------------------------------------------
-- Units
------------------------------------------------------------

namespace Lox.Decimal

/- A negative power is cleared by the opposite one. -/
theorem zpow_mul_pow_neg
    (base : ℚ)
    (hBase : base ≠ 0)
    (e : ℤ) :
    base ^ e * base ^ (-e).toNat = base ^ e.toNat := by
  rw [← zpow_natCast, ← zpow_natCast, ← zpow_add₀ hBase]
  congr 1
  omega

namespace Dyadic

variable (d : Dyadic) (place : ℤ)

/- How many units make one. -/
def unitsPerOne : ℚ :=
  2 ^ (-(d.exponent - 2)).toNat * 10 ^ (-place).toNat

theorem unitsPerOne_pos : 0 < d.unitsPerOne place := by
  unfold unitsPerOne
  positivity

/- The fourth part of the spacing of the doubles. -/
def quarterUnits : ℕ :=
  twoTo (d.exponent - 2).toNat * tenTo (-place).toNat

/- The spacing of the grid. -/
def stepUnits : ℕ :=
  tenTo place.toNat * twoTo (-(d.exponent - 2)).toNat

theorem quarterUnits_eq :
    (d.quarterUnits place : ℚ) =
      d.quarter * d.unitsPerOne place := by
  have hClear :=
    zpow_mul_pow_neg 2 (by norm_num) (d.exponent - 2)
  unfold quarterUnits unitsPerOne quarter twoTo tenTo
  rw [← mul_assoc, hClear]
  push_cast [Nat.pow_eq]
  ring

theorem stepUnits_eq :
    (d.stepUnits place : ℚ) =
      10 ^ place * d.unitsPerOne place := by
  have hClear := zpow_mul_pow_neg 10 (by norm_num) place
  unfold stepUnits unitsPerOne twoTo tenTo
  rw [mul_comm (2 ^ _), ← mul_assoc, hClear]
  push_cast [Nat.pow_eq]
  ring

end Dyadic

end Lox.Decimal

------------------------------------------------------------
-- Points Of A Grid
------------------------------------------------------------

namespace Lox.Decimal.Dyadic

variable (d : Dyadic) (place : ℤ)

/- The number, and the ends of its interval. -/
def valueUnits : ℕ :=
  4 * d.mantissa * d.quarterUnits place

def lowUnits : ℕ :=
  if d.isLowestOfBinade then
    d.valueUnits place - d.quarterUnits place
  else d.valueUnits place - 2 * d.quarterUnits place

def highUnits : ℕ :=
  d.valueUnits place + 2 * d.quarterUnits place

/- Whether a point of the grid lies in the interval. -/
def isHit (k : ℕ) : Bool :=
  let point := k * d.stepUnits place
  if d.mantissa % 2 = 0 then
    d.lowUnits place ≤ point && point ≤ d.highUnits place
  else d.lowUnits place < point && point < d.highUnits place

/- The last point of the grid that is not above the number. -/
def pointBelow : ℕ :=
  d.valueUnits place / d.stepUnits place

theorem valueUnits_eq :
    (d.valueUnits place : ℚ) = d.value * d.unitsPerOne place := by
  unfold valueUnits
  rw [value_eq_quarters]
  push_cast
  rw [quarterUnits_eq]
  ring

theorem highUnits_eq :
    (d.highUnits place : ℚ) = d.high * d.unitsPerOne place := by
  unfold highUnits high
  push_cast
  rw [valueUnits_eq, quarterUnits_eq]
  ring

variable {d place}

theorem lowUnits_eq (hPositive : 0 < d.mantissa) :
    (d.lowUnits place : ℚ) = d.low * d.unitsPerOne place := by
  have hRoom :
      4 * d.quarterUnits place ≤ d.valueUnits place := by
    unfold valueUnits
    apply Nat.mul_le_mul_right
    omega
  unfold lowUnits low
  split
  · rw [Nat.cast_sub (by omega), valueUnits_eq, quarterUnits_eq]
    ring
  · rw [Nat.cast_sub (by omega), Nat.cast_mul, valueUnits_eq,
      quarterUnits_eq]
    push_cast
    ring

/- The points that are taken are those that read back. -/
theorem isHit_iff
    (hPositive : 0 < d.mantissa)
    (k : ℕ) :
    d.isHit place k = true ↔ d.Rounds (k * 10 ^ place) := by
  have hUnits := d.unitsPerOne_pos place
  have hPoint :
      ((k * d.stepUnits place : ℕ) : ℚ) =
        k * 10 ^ place * d.unitsPerOne place := by
    rw [Nat.cast_mul, stepUnits_eq, mul_assoc]
  have hLow :
      d.lowUnits place ≤ k * d.stepUnits place ↔
        d.low ≤ k * 10 ^ place := by
    rw [← Nat.cast_le (α := ℚ), hPoint, lowUnits_eq hPositive,
      mul_le_mul_iff_of_pos_right hUnits]
  have hHigh :
      k * d.stepUnits place ≤ d.highUnits place ↔
        k * 10 ^ place ≤ d.high := by
    rw [← Nat.cast_le (α := ℚ), hPoint, highUnits_eq,
      mul_le_mul_iff_of_pos_right hUnits]
  have hAbove :
      d.lowUnits place < k * d.stepUnits place ↔
        d.low < k * 10 ^ place := by
    rw [← Nat.cast_lt (α := ℚ), hPoint, lowUnits_eq hPositive,
      mul_lt_mul_iff_of_pos_right hUnits]
  have hBelow :
      k * d.stepUnits place < d.highUnits place ↔
        k * 10 ^ place < d.high := by
    rw [← Nat.cast_lt (α := ℚ), hPoint, highUnits_eq,
      mul_lt_mul_iff_of_pos_right hUnits]
  unfold isHit
  by_cases hEven : d.mantissa % 2 = 0
  · simp only [if_pos hEven, Bool.and_eq_true, decide_eq_true_eq,
      hLow, hHigh]
    exact
      ⟨fun hInside =>
          ⟨hInside.1, hInside.2, fun hOdd => absurd hEven hOdd⟩,
        fun hRounds => ⟨hRounds.low_le, hRounds.le_high⟩⟩
  · simp only [if_neg hEven, Bool.and_eq_true, decide_eq_true_eq,
      hAbove, hBelow]
    exact
      ⟨fun hInside =>
          ⟨hInside.1.le, hInside.2.le, fun _ => hInside⟩,
        fun hRounds => hRounds.inside hEven⟩

/- The choice of a point, in units. -/
theorem onGrid_eq :
    d.onGrid place =
      let below := d.pointBelow place
      let above := below + 1
      let toBelow := d.valueUnits place - below * d.stepUnits place
      let toAbove := above * d.stepUnits place - d.valueUnits place
      if d.isHit place below && d.isHit place above then
        if toBelow < toAbove then some ⟨below, place⟩
        else if toAbove < toBelow then some ⟨above, place⟩
        else if below % 2 = 0 then some ⟨below, place⟩
        else some ⟨above, place⟩
      else if d.isHit place below then some ⟨below, place⟩
      else if d.isHit place above then some ⟨above, place⟩
      else none :=
  rfl

/- What is found on a grid is a point that reads back. -/
theorem rounds_of_onGrid
    (hPositive : 0 < d.mantissa)
    {s : Scientific}
    (hFound : d.onGrid place = some s) :
    d.Rounds s.value := by
  have hPoint :
      ∃ k, d.isHit place k = true ∧ s = ⟨k, place⟩ := by
    rw [onGrid_eq] at hFound
    dsimp only at hFound
    grind
  rcases hPoint with ⟨k, hHit, rfl⟩
  exact (isHit_iff hPositive k).mp hHit

/- A grid that is no wider than a quarter has such a point. -/
theorem onGrid_isSome
    (hFine : (10 : ℚ) ^ place ≤ d.quarter)
    (hPositive : 0 < d.mantissa) :
    (d.onGrid place).isSome = true := by
  have hUnits := d.unitsPerOne_pos place
  have hStep : d.stepUnits place ≤ d.quarterUnits place := by
    rw [← Nat.cast_le (α := ℚ), stepUnits_eq, quarterUnits_eq]
    exact mul_le_mul_of_nonneg_right hFine hUnits.le
  have hStepPos : 0 < d.stepUnits place := by
    rw [← Nat.cast_pos (α := ℚ), stepUnits_eq]
    positivity
  have hRoom :
      4 * d.quarterUnits place ≤ d.valueUnits place := by
    unfold valueUnits
    apply Nat.mul_le_mul_right
    omega
  have hNotAbove :
      d.pointBelow place * d.stepUnits place ≤
        d.valueUnits place :=
    Nat.div_mul_le_self _ _
  have hNear :
      d.valueUnits place <
        d.pointBelow place * d.stepUnits place +
          d.stepUnits place :=
    Nat.lt_div_mul_add hStepPos
  have hHit : d.isHit place (d.pointBelow place) = true := by
    unfold isHit lowUnits highUnits
    dsimp only
    split_ifs <;> simp only [Bool.and_eq_true, decide_eq_true_eq] <;>
      omega
  rw [onGrid_eq]
  dsimp only
  rw [hHit]
  split_ifs <;> simp_all

end Lox.Decimal.Dyadic

------------------------------------------------------------
-- The Search
------------------------------------------------------------

namespace Lox.Decimal.Dyadic

variable {d : Dyadic}

theorem rounds_of_searchGrids
    (hPositive : 0 < d.mantissa)
    {tries : ℕ}
    {place : ℤ}
    {s : Scientific}
    (hFound : d.searchGrids tries place = some s) :
    d.Rounds s.value := by
  induction tries generalizing place with
  | zero => cases hFound
  | succ tries ih =>
      unfold searchGrids at hFound
      cases hGrid : d.onGrid place with
      | some found =>
          rw [hGrid] at hFound
          cases hFound
          exact rounds_of_onGrid hPositive hGrid
      | none =>
          rw [hGrid] at hFound
          exact ih hFound

/- The last grid of a search decides whether it succeeds. -/
theorem searchGrids_isSome
    {tries : ℕ}
    {place : ℤ}
    (hLast : (d.onGrid (place - tries)).isSome = true) :
    (d.searchGrids (tries + 1) place).isSome = true := by
  induction tries generalizing place with
  | zero =>
      rw [Nat.cast_zero, sub_zero] at hLast
      unfold searchGrids
      cases hGrid : d.onGrid place with
      | some found => rfl
      | none =>
          rw [hGrid] at hLast
          cases hLast
  | succ tries ih =>
      unfold searchGrids
      cases hGrid : d.onGrid place with
      | some found => rfl
      | none =>
          apply ih
          rw [sub_sub, add_comm, ← Nat.cast_succ]
          exact hLast

end Lox.Decimal.Dyadic

------------------------------------------------------------
-- Powers Of Ten And Of Two
------------------------------------------------------------

namespace Lox.Decimal

/- Ten is less than `2 ^ (10 / 3)`. -/
theorem ten_zpow_le_of_nonneg
    {a b : ℤ}
    (hNonneg : 0 ≤ a)
    (hBound : 10 * a ≤ 3 * b) :
    (10 : ℚ) ^ a ≤ 2 ^ b := by
  rw [← pow_le_pow_iff_left₀ (by positivity) (by positivity)
    (by norm_num : 3 ≠ 0)]
  calc
    ((10 : ℚ) ^ a) ^ 3 = ((10 : ℚ) ^ 3) ^ a := by
      rw [← zpow_natCast, ← zpow_natCast, zpow_comm]
    _ ≤ ((2 : ℚ) ^ 10) ^ a :=
      zpow_le_zpow_left₀ hNonneg (by norm_num) (by norm_num)
    _ = (2 : ℚ) ^ (10 * a) := by
      rw [zpow_mul]
      norm_cast
    _ ≤ (2 : ℚ) ^ (3 * b) :=
      zpow_le_zpow_right₀ (by norm_num) hBound
    _ = ((2 : ℚ) ^ b) ^ 3 := by
      rw [mul_comm, zpow_mul]
      norm_cast

/- Ten is more than `2 ^ (93 / 28)`. -/
theorem ten_zpow_le_of_nonpos
    {a b : ℤ}
    (hNonpos : a ≤ 0)
    (hBound : 93 * a ≤ 28 * b) :
    (10 : ℚ) ^ a ≤ 2 ^ b := by
  rcases Int.exists_eq_neg_ofNat hNonpos with ⟨n, rfl⟩
  rw [← pow_le_pow_iff_left₀ (by positivity) (by positivity)
    (by norm_num : 28 ≠ 0)]
  calc
    ((10 : ℚ) ^ (-n : ℤ)) ^ 28 =
        ((10 : ℚ) ^ 28) ^ (-n : ℤ) := by
      rw [← zpow_natCast, ← zpow_natCast, zpow_comm]
    _ ≤ ((2 : ℚ) ^ 93) ^ (-n : ℤ) := by
      rw [zpow_neg, zpow_neg, zpow_natCast, zpow_natCast]
      apply inv_anti₀ (by positivity)
      exact pow_le_pow_left₀ (by norm_num) (by norm_num) n
    _ = (2 : ℚ) ^ (93 * (-n : ℤ)) := by
      rw [zpow_mul]
      norm_cast
    _ ≤ (2 : ℚ) ^ (28 * b) :=
      zpow_le_zpow_right₀ (by norm_num) hBound
    _ = ((2 : ℚ) ^ b) ^ 28 := by
      rw [mul_comm, zpow_mul]
      norm_cast

end Lox.Decimal

------------------------------------------------------------
-- Success
------------------------------------------------------------

namespace Lox.Decimal.Dyadic

variable {d : Dyadic}

/-
  The last grid that is searched is finer than the interval: a
  double has at most 53 binary digits, and 24 decimal ones from
  the first place on are enough for them.
-/
theorem IsDouble.ten_zpow_le_quarter
    (hDouble : d.IsDouble) :
    (10 : ℚ) ^ (d.topPlace - 23) ≤ d.quarter := by
  have hLog : d.mantissa.log2 < 53 :=
    (Nat.log2_lt hDouble.positive.ne').mpr hDouble.mantissa_lt
  have hLeast := hDouble.least_le
  have hGreatest := hDouble.le_greatest
  unfold quarter
  rcases le_total 0 (d.topPlace - 23) with hNonneg | hNonpos
  · apply ten_zpow_le_of_nonneg hNonneg
    unfold topPlace
    omega
  · apply ten_zpow_le_of_nonpos hNonpos
    unfold topPlace
    omega

/- The shortest decimal of a double reads back as the double. -/
theorem shortest_rounds (hDouble : d.IsDouble) :
    d.Rounds d.shortest.value := by
  have hFound : (d.searchGrids 24 d.topPlace).isSome = true := by
    apply searchGrids_isSome
    exact
      onGrid_isSome hDouble.ten_zpow_le_quarter hDouble.positive
  rcases Option.isSome_iff_exists.mp hFound with ⟨s, hSome⟩
  have hShortest : d.shortest = s := by
    unfold shortest
    rw [hSome]
    rfl
  rw [hShortest]
  exact rounds_of_searchGrids hDouble.positive hSome

end Lox.Decimal.Dyadic
