import Lox.Number.Pattern
import Mathlib.Algebra.Group.Nat.Defs
import Mathlib.Order.Monotone.Basic

set_option autoImplicit false

namespace Lox.Pattern

variable {p q u shift m : Nat}

/-- The pattern `p` has the significand `m` at the exponent `shift`. Only at the lowest exponent is
the leading bit of a significand ever missing. -/
structure Parts (p shift m : Nat) : Prop where
  sum : p = shift * binade + m
  below : m < 2 * binade
  leading : shift = 0 ∨ binade ≤ m

theorem parts (p : Nat) : Parts p (p / binade - 1) (p - (p / binade - 1) * binade) := by
  have division := Nat.div_add_mod p 4503599627370496
  have rest := Nat.mod_lt p (show 0 < 4503599627370496 by omega)
  constructor <;> simp only [binade] <;> omega

theorem Parts.shift_eq (of : Parts p shift m) : p / binade - 1 = shift := by
  obtain ⟨sum, below, leading⟩ := of
  simp only [binade] at *
  omega

theorem Parts.units_eq (of : Parts p shift m) : units p = m * 2 ^ shift := by
  have significand : p - shift * binade = m := by
    have sum := of.sum
    omega
  simp only [units, of.shift_eq, significand, Nat.shiftLeft_eq]

/-- The next pattern is one unit of the exponent away, also if it has the next exponent. -/
theorem Parts.units_succ (of : Parts p shift m) : units (p + 1) = units p + 2 ^ shift := by
  obtain ⟨sum, below, leading⟩ := id of
  by_cases last : m + 1 = 2 * binade
  · have next : Parts (p + 1) (shift + 1) binade := by
      constructor <;> simp only [binade] at * <;> omega
    rw [next.units_eq, of.units_eq, ← Nat.succ_mul, Nat.succ_eq_add_one, last, Nat.pow_succ',
      Nat.mul_left_comm, Nat.mul_assoc]
  · have next : Parts (p + 1) shift (m + 1) := by
      constructor <;> simp only [binade] at * <;> omega
    rw [next.units_eq, of.units_eq, Nat.succ_mul]

theorem units_lt_units_succ (p : Nat) : units p < units (p + 1) := by
  rw [(parts p).units_succ]
  exact Nat.lt_add_of_pos_right (Nat.two_pow_pos _)

/-- Patterns are ordered as their values. -/
theorem units_strictMono : StrictMono units :=
  strictMono_nat_of_lt_succ units_lt_units_succ

/-- Rounding down leaves the leading 53 bits as the significand. -/
theorem parts_floor (u : Nat) : Parts (floor u) (u.log2 - 52) (u / 2 ^ (u.log2 - 52)) := by
  have above : u < 2 ^ (u.log2 + 1) := Nat.lt_log2_self
  constructor
  · rw [← Nat.shiftRight_eq_div_pow]
    rfl
  · rw [Nat.div_lt_iff_lt_mul (Nat.two_pow_pos _)]
    calc u < 2 ^ (u.log2 + 1) := above
      _ ≤ 2 ^ (53 + (u.log2 - 52)) := Nat.pow_le_pow_right (by omega) (by omega)
      _ = 2 * binade * 2 ^ (u.log2 - 52) := Nat.pow_add 2 53 _
  · by_cases low : u.log2 ≤ 52
    · left
      omega
    · right
      have nonzero : u ≠ 0 := by
        rintro rfl
        simp at low
      rw [Nat.le_div_iff_mul_le (Nat.two_pow_pos _)]
      calc binade * 2 ^ (u.log2 - 52) = 2 ^ (52 + (u.log2 - 52)) := (Nat.pow_add 2 52 _).symm
        _ = 2 ^ u.log2 := by congr 1; omega
        _ ≤ u := Nat.log2_self_le nonzero

/-- Every value lies between the pattern it is rounded down to and the next one. -/
theorem units_floor_le (u : Nat) : units (floor u) ≤ u := by
  rw [(parts_floor u).units_eq]
  exact Nat.div_mul_le_self u _

theorem lt_units_floor_succ (u : Nat) : u < units (floor u + 1) := by
  rw [(parts_floor u).units_succ, (parts_floor u).units_eq, ← Nat.succ_mul]
  exact (Nat.div_lt_iff_lt_mul (Nat.two_pow_pos _)).mp (Nat.lt_succ_self _)

/-- Rounding down is the greatest pattern of at most the value. -/
theorem le_floor_iff : p ≤ floor u ↔ units p ≤ u := by
  constructor
  · intro below
    exact (units_strictMono.monotone below).trans (units_floor_le u)
  · intro below
    have between : units p < units (floor u + 1) := below.trans_lt (lt_units_floor_succ u)
    exact Nat.lt_succ_iff.mp (units_strictMono.lt_iff_lt.mp between)

theorem floor_units (p : Nat) : floor (units p) = p := by
  apply Nat.le_antisymm
  · exact units_strictMono.le_iff_le.mp (units_floor_le (units p))
  · exact le_floor_iff.mpr le_rfl

/-- A pattern up to infinity is the nearest one to its own value, whatever fraction the value is
written as. -/
theorem nearest_units {den : Nat} (finite : p ≤ infinity) (positive : 0 < den) :
    nearest (units p * den) den = p := by
  have next : units p * den < units (p + 1) * den :=
    Nat.mul_lt_mul_of_pos_right (units_lt_units_succ p) positive
  have low : 2 * (units p * den) < (units p + units (p + 1)) * den := by
    rw [Nat.add_mul]
    omega
  simp only [nearest, Nat.mul_div_cancel _ positive, floor_units, low, ↓reduceIte]
  exact Nat.min_eq_left finite

end Lox.Pattern
