/- Non-negative doubles as natural numbers. The pattern of a double is its bit pattern without the
sign, and the value of a pattern is counted in units of 2^-1074, the least positive double. In that
unit every finite double is a natural number, so rounding is arithmetic of natural numbers. Patterns
are ordered as their doubles are, and those above `Pattern.infinity` are the NaNs. -/

set_option autoImplicit false

namespace Lox.Pattern

/-- The number of doubles between two neighbouring powers of two, 2^52. -/
abbrev binade : Nat := 4503599627370496

/-- The pattern of infinity, the first with the highest exponent. -/
abbrev infinity : Nat := 9218868437227405312

/-- The weight of the sign bit, 2^63. All patterns are below it. -/
abbrev signBit : Nat := 9223372036854775808

/-- The number of units in one, 2^1074. -/
def unitsOfOne : Nat := 1 <<< 1074

/-- The value of a pattern in units. Beyond the finite patterns it goes on as if the exponent had no
upper limit, so `infinity` stands for 2^1024. -/
def units (pattern : Nat) : Nat :=
  let shift := pattern / binade - 1
  (pattern - shift * binade) <<< shift

/-- The greatest pattern whose value is at most `u` units. -/
def floor (u : Nat) : Nat :=
  let shift := u.log2 - 52
  shift * binade + u >>> shift

/-- The pattern nearest to `num / den` units. A tie goes to the even pattern, and everything from
halfway between the greatest double and 2^1024 on is infinity. -/
def nearest (num den : Nat) : Nat :=
  let low := floor (num / den)
  let middle := (units low + units (low + 1)) * den
  let rounded :=
    if 2 * num < middle then low
    else if middle < 2 * num then low + 1
    else low + low % 2
  min rounded infinity

theorem nearest_le_infinity (num den : Nat) : nearest num den ≤ infinity :=
  Nat.min_le_right _ _

end Lox.Pattern
