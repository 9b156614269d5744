import NodeGrid.Decimal.Rounding
import Mathlib.Algebra.Order.Field.Rat
import Mathlib.Data.Rat.Cast.Order
import Mathlib.Tactic.Positivity

/-!
# Shares

A quotient that is at most one stays at most one when it is rounded
(`ofQuotient_le_one`), and so does what is missing from it to one.
-/

namespace NodeGrid.Decimal

/-- Rounding goes no further than to a whole number that bounds the quotient. -/
theorem roundedQuotient_le {numerator denominator bound : ℕ}
    (hle : numerator ≤ denominator * bound) :
    roundedQuotient numerator denominator ≤ bound := by
  rcases Nat.eq_zero_or_pos denominator with rfl | hpos
  · simp [roundedQuotient, Nat.eq_zero_of_le_zero (Nat.zero_mul bound ▸ hle)]
  have hdivision := Nat.div_add_mod numerator denominator
  have hquotient : numerator / denominator ≤ bound := Nat.div_le_of_le_mul hle
  unfold roundedQuotient
  simp only
  split
  · exact hquotient
  · rename_i hup
    -- a quotient that is rounded up leaves a rest, so it is below the bound
    refine Nat.lt_of_le_of_ne hquotient fun heq => hup (Or.inl ?_)
    rw [heq] at hdivision
    omega

namespace Binary

/-- The number itself. -/
def toRat (number : Binary) : ℚ := number.significand / 2 ^ number.places

theorem toRat_nonneg (number : Binary) : 0 ≤ number.toRat := by
  unfold toRat
  positivity

theorem ofQuotient_le_one {numerator denominator : ℕ} (hle : numerator ≤ denominator) :
    (ofQuotient numerator denominator).toRat ≤ 1 := by
  unfold ofQuotient
  split
  · simp [toRat]
  · rw [toRat, div_le_one (by positivity)]
    have hrounded : ∀ places, roundedQuotient (numerator * Nat.pow 2 places) denominator ≤
        2 ^ places := fun places => roundedQuotient_le (Nat.mul_le_mul_right _ hle)
    exact_mod_cast hrounded _

theorem complement_le_one (number : Binary) : number.complement.toRat ≤ 1 :=
  ofQuotient_le_one (Nat.sub_le _ _)

end Binary

end NodeGrid.Decimal
