import Lox.Proofs.Number.Decimal

set_option autoImplicit false

namespace Lox

namespace Pattern

variable {num den p : Nat}

theorem le_floor_div_iff (positive : 0 < den) : p ≤ floor (num / den) ↔ units p * den ≤ num :=
  le_floor_iff.trans (Nat.le_div_iff_mul_le positive)

/-- An even pattern is reached from the middle between the one before it and itself on, since in the
middle the even one is taken. -/
theorem succ_le_nearest_iff (positive : 0 < den) (odd : p % 2 = 1) (inRange : p + 1 ≤ infinity) :
    p + 1 ≤ nearest num den ↔ (units p + units (p + 1)) * den ≤ 2 * num := by
  have ordered : units p * den ≤ units (p + 1) * den :=
    Nat.mul_le_mul_right den (Nat.le_of_lt (units_lt_units_succ p))
  rw [nearest, Nat.le_min, and_iff_left inRange]
  rcases Nat.lt_trichotomy (floor (num / den)) p with lower | same | higher
  · have less : ¬ units p * den ≤ num := mt (le_floor_div_iff positive).mpr (Nat.not_le.mpr lower)
    have outside : ¬ (units p + units (p + 1)) * den ≤ 2 * num := by
      rw [Nat.add_mul]
      omega
    refine iff_of_false ?_ outside
    split
    · omega
    · split <;> omega
  · rw [same]
    split
    · omega
    · split <;> omega
  · have reached : units (p + 1) * den ≤ num := (le_floor_div_iff positive).mp higher
    have inside : (units p + units (p + 1)) * den ≤ 2 * num := by
      rw [Nat.add_mul]
      omega
    refine iff_of_true ?_ inside
    split
    · omega
    · split <;> omega

theorem nearest_eq_infinity_iff (positive : 0 < den) :
    nearest num den = infinity ↔
      (units (infinity - 1) + units infinity) * den ≤ 2 * num := by
  have reached : infinity ≤ nearest num den ↔
      (units (infinity - 1) + units infinity) * den ≤ 2 * num :=
    succ_le_nearest_iff positive (by decide) (by decide)
  rw [← reached]
  exact ⟨Nat.le_of_eq ∘ Eq.symm, Nat.le_antisymm (nearest_le_infinity num den)⟩

end Pattern

namespace Decimal

/-- The decimal is at least in the middle between the greatest double and 2^1024. -/
def Overflows (d : Decimal) : Prop :=
  (2 ^ 1024 - 2 ^ 970) * scale d.places ≤ d.digits

instance (d : Decimal) : Decidable d.Overflows :=
  inferInstanceAs (Decidable (_ ≤ _))

theorem pattern_eq_infinity_iff (d : Decimal) : d.pattern = Pattern.infinity ↔ d.Overflows := by
  have middle : Pattern.units (Pattern.infinity - 1) + Pattern.units Pattern.infinity =
      2 * ((2 ^ 1024 - 2 ^ 970) * Pattern.unitsOfOne) := by
    decide +kernel
  have one : 0 < Pattern.unitsOfOne := by
    decide +kernel
  rw [pattern, Pattern.nearest_eq_infinity_iff (scale_pos d.places), middle, Overflows]
  generalize Pattern.unitsOfOne = unit at one ⊢
  generalize 2 ^ 1024 - 2 ^ 970 = limit
  rw [Nat.mul_assoc, Nat.mul_right_comm, Nat.mul_le_mul_left_iff (by decide),
    Nat.mul_le_mul_right_iff one]

end Decimal

namespace Number

/-- A numeral stands for an infinity if its decimal is too large, however long it is. -/
theorem isInfinite_ofDecimal_iff (d : Decimal) :
    (ofDecimal d).isInfinite = true ↔ d.Overflows := by
  rw [isInfinite, decide_eq_true_iff, pattern_ofDecimal, Decimal.pattern_eq_infinity_iff]

end Number

end Lox
