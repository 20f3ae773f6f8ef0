import Mathlib.Algebra.Order.Field.Power
import Mathlib.Data.Rat.Cast.Order
import Mathlib.Tactic.Linarith
import Mathlib.Tactic.Positivity
import Mathlib.Tactic.Ring
import Lox.Decimal.Shortest

/-
  The numbers that read back as a double.

  They form an interval around the double, whose ends lie half
  way to its neighbours and belong to it exactly when its
  mantissa is even. The intervals of two doubles have no number
  in common: at an end where they meet, one of the two has an
  odd mantissa.

  Key definitions include:
    * `Dyadic.IsDouble`
    * `Dyadic.Rounds`
    * `Dyadic.Below`
    * `Dyadic.eq_of_rounds`
-/

------------------------------------------------------------
-- Values
------------------------------------------------------------

namespace Lox.Decimal

def Scientific.value (s : Scientific) : ℚ :=
  s.digits * 10 ^ s.exponent

namespace Dyadic

def value (d : Dyadic) : ℚ :=
  d.mantissa * 2 ^ d.exponent

/- The fourth part of the spacing above the number. -/
def quarter (d : Dyadic) : ℚ :=
  2 ^ (d.exponent - 2)

theorem quarter_pos (d : Dyadic) : 0 < d.quarter := by
  unfold quarter
  positivity

theorem value_eq_quarters (d : Dyadic) :
    d.value = 4 * d.mantissa * d.quarter := by
  have hSplit : (2 : ℚ) ^ d.exponent = d.quarter * 2 ^ (2 : ℤ) := by
    unfold quarter
    rw [← zpow_add₀ (by norm_num)]
    congr 1
    ring
  unfold value
  rw [hSplit]
  norm_num
  ring

/-
  A positive finite double: its mantissa has 53 binary digits,
  or fewer where the exponent is the least.
-/
structure IsDouble (d : Dyadic) : Prop where
  positive : 0 < d.mantissa
  mantissa_lt : d.mantissa < twoTo 53
  least_le : -1074 ≤ d.exponent
  le_greatest : d.exponent ≤ 971
  normal : d.exponent ≠ -1074 → twoTo 52 ≤ d.mantissa

end Dyadic

end Lox.Decimal

------------------------------------------------------------
-- Intervals
------------------------------------------------------------

namespace Lox.Decimal.Dyadic

/- The numbers half way to the doubles below and above. -/
def low (d : Dyadic) : ℚ :=
  if d.isLowestOfBinade then d.value - d.quarter
  else d.value - 2 * d.quarter

def high (d : Dyadic) : ℚ :=
  d.value + 2 * d.quarter

/- The numbers that read back as a double. -/
structure Rounds (d : Dyadic) (q : ℚ) : Prop where
  low_le : d.low ≤ q
  le_high : q ≤ d.high
  inside : d.mantissa % 2 ≠ 0 → d.low < q ∧ q < d.high

theorem le_low (d : Dyadic) :
    (4 * d.mantissa - 2) * d.quarter ≤ d.low := by
  have hQuarter := d.quarter_pos
  unfold low
  rw [value_eq_quarters]
  split <;> linarith

theorem high_eq (d : Dyadic) :
    d.high = (4 * d.mantissa + 2) * d.quarter := by
  unfold high
  rw [value_eq_quarters]
  ring

variable {d d' : Dyadic}

theorem IsDouble.low_pos (hDouble : d.IsDouble) : 0 < d.low := by
  have hMantissa : (1 : ℚ) ≤ d.mantissa := by
    exact_mod_cast hDouble.positive
  have hUnits : (0 : ℚ) < 4 * d.mantissa - 2 := by linarith
  exact lt_of_lt_of_le (mul_pos hUnits d.quarter_pos) d.le_low

theorem Rounds.pos
    {q : ℚ}
    (hRounds : d.Rounds q)
    (hDouble : d.IsDouble) :
    0 < q :=
  lt_of_lt_of_le hDouble.low_pos hRounds.low_le

/-
  Above the least exponent the mantissa is large; where it is
  the smallest one, the number below is nearer.
-/
theorem IsDouble.le_low_of_normal
    (hDouble : d.IsDouble)
    (hNormal : d.exponent ≠ -1074) :
    (2 ^ 54 - 1) * d.quarter ≤ d.low := by
  have hQuarter := d.quarter_pos
  have hLeast := hDouble.normal hNormal
  by_cases hLowest : d.mantissa = twoTo 52
  · have hIs : d.isLowestOfBinade = true := by
      simp [isLowestOfBinade, hLowest, hNormal]
    have hMantissa : (d.mantissa : ℚ) = 2 ^ 52 := by
      rw [hLowest]
      norm_num [twoTo]
    unfold low
    rw [if_pos hIs, value_eq_quarters, hMantissa]
    linarith
  · have hNext : twoTo 52 + 1 ≤ d.mantissa := by omega
    have hMantissa : (2 ^ 52 + 1 : ℚ) ≤ d.mantissa := by
      have hCast : ((twoTo 52 + 1 : ℕ) : ℚ) ≤ d.mantissa := by
        exact_mod_cast hNext
      norm_num [twoTo] at hCast ⊢
      exact hCast
    refine le_trans ?_ d.le_low
    apply mul_le_mul_of_nonneg_right _ hQuarter.le
    linarith

/- The interval of one double ends before that of another. -/
structure Below (d d' : Dyadic) : Prop where
  high_le_low : d.high ≤ d'.low
  high_lt_low :
    d.mantissa % 2 = 0 → d'.mantissa % 2 = 0 → d.high < d'.low

theorem below_of_same_exponent
    (hExponent : d.exponent = d'.exponent)
    (hLess : d.mantissa < d'.mantissa) :
    d.Below d' := by
  have hQuarter := d.quarter_pos
  have hSame : d'.quarter = d.quarter := by
    unfold quarter
    rw [hExponent]
  have hLow := d'.le_low
  rw [hSame] at hLow
  have hStep : (d.mantissa : ℚ) + 1 ≤ d'.mantissa := by
    exact_mod_cast hLess
  refine ⟨le_trans ?_ hLow, fun hEven hEven' => ?_⟩
  · rw [high_eq]
    apply mul_le_mul_of_nonneg_right _ hQuarter.le
    linarith
  · have hNext : d.mantissa + 2 ≤ d'.mantissa := by omega
    have hStep' : (d.mantissa : ℚ) + 2 ≤ d'.mantissa := by
      exact_mod_cast hNext
    refine lt_of_lt_of_le ?_ hLow
    rw [high_eq]
    apply mul_lt_mul_of_pos_right _ hQuarter
    linarith

theorem below_of_smaller_exponent
    (hDouble : d.IsDouble)
    (hDouble' : d'.IsDouble)
    (hLess : d.exponent < d'.exponent) :
    d.Below d' := by
  have hQuarter := d.quarter_pos
  have hWider : 2 * d.quarter ≤ d'.quarter := by
    have hTwice : 2 * d.quarter = 2 ^ (d.exponent - 1) := by
      unfold quarter
      rw [← zpow_one_add₀ (by norm_num)]
      congr 1
      ring
    rw [hTwice]
    unfold quarter
    exact zpow_le_zpow_right₀ (by norm_num) (by omega)
  have hNormal : d'.exponent ≠ -1074 := by
    have hLeast := hDouble.least_le
    omega
  have hLow : (2 ^ 54 - 1) * (2 * d.quarter) ≤ d'.low :=
    le_trans (mul_le_mul_of_nonneg_left hWider (by norm_num))
      (hDouble'.le_low_of_normal hNormal)
  have hBound := hDouble.mantissa_lt
  unfold twoTo at hBound
  have hGreatest : (d.mantissa : ℚ) + 1 ≤ 2 ^ 53 := by
    exact_mod_cast hBound
  refine ⟨le_trans ?_ hLow, fun hEven _ => ?_⟩
  · rw [high_eq, ← mul_assoc]
    apply mul_le_mul_of_nonneg_right _ hQuarter.le
    linarith
  · have hNotLast : d.mantissa + 2 ≤ 2 ^ 53 := by
      norm_num at hBound ⊢
      omega
    have hGreatest' : (d.mantissa : ℚ) + 2 ≤ 2 ^ 53 := by
      exact_mod_cast hNotLast
    refine lt_of_lt_of_le ?_ hLow
    rw [high_eq, ← mul_assoc]
    apply mul_lt_mul_of_pos_right _ hQuarter
    linarith

/- No number reads back as both. -/
theorem Below.not_both
    (hBelow : d.Below d')
    {q : ℚ}
    (hRounds : d.Rounds q)
    (hRounds' : d'.Rounds q) :
    False := by
  have hMeets := hBelow.high_le_low
  have hHigh := hRounds.le_high
  have hLow := hRounds'.low_le
  by_cases hEven : d.mantissa % 2 = 0
  · by_cases hEven' : d'.mantissa % 2 = 0
    · have hApart := hBelow.high_lt_low hEven hEven'
      linarith
    · have hInside := (hRounds'.inside hEven').1
      linarith
  · have hInside := (hRounds.inside hEven).2
    linarith

/- A number reads back as one double only. -/
theorem eq_of_rounds
    (hDouble : d.IsDouble)
    (hDouble' : d'.IsDouble)
    {q : ℚ}
    (hRounds : d.Rounds q)
    (hRounds' : d'.Rounds q) :
    d = d' := by
  rcases lt_trichotomy d.exponent d'.exponent with
    hLess | hSame | hGreater
  · exact
      ((below_of_smaller_exponent hDouble hDouble' hLess).not_both
        hRounds hRounds').elim
  · rcases lt_trichotomy d.mantissa d'.mantissa with
      hLess | hMantissa | hGreater
    · exact
        ((below_of_same_exponent hSame hLess).not_both hRounds
          hRounds').elim
    · cases d
      cases d'
      simp_all
    · exact
        ((below_of_same_exponent hSame.symm hGreater).not_both
          hRounds' hRounds).elim
  · exact
      ((below_of_smaller_exponent hDouble' hDouble
        hGreater).not_both hRounds' hRounds).elim

end Lox.Decimal.Dyadic
