import Lox.Number.Pattern

set_option autoImplicit false

namespace Lox

/-- A number of units of the last of some decimal places, `digits / 10 ^ places`. -/
structure Decimal where
  digits : Nat
  places : Nat
deriving DecidableEq

namespace Decimal

/-- The number of units of the last place in one. -/
def scale (places : Nat) : Nat :=
  Nat.pow 10 places

/-- Reads digits, with a point among them or without. -/
def ofText (text : List Char) : Decimal :=
  let whole := text.takeWhile (· ≠ '.')
  let fraction := (text.dropWhile (· ≠ '.')).drop 1
  ⟨Nat.ofDigitChars 10 (whole ++ fraction) 0, fraction.length⟩

/-- The digits before the point, then, if there are places, a point and a digit for each place. -/
def text (d : Decimal) : List Char :=
  let whole := Nat.toDigits 10 (d.digits / scale d.places)
  if d.places = 0 then whole
  else whole ++ '.' :: (Nat.toDigits 10 (d.digits % scale d.places)).leftpad d.places '0'

def pattern (d : Decimal) : Nat :=
  Pattern.nearest (d.digits * Pattern.unitsOfOne) (scale d.places)

/-- The point `c * 10 ^ k` of a decimal grid, counted in units of 10^-1074. Every finite double is a
point of the grid `k = 0`. -/
def gridPoint (c k : Nat) : Decimal :=
  if 1074 ≤ k then ⟨c * scale (k - 1074), 0⟩ else ⟨c, 1074 - k⟩

/-- The value of a finite pattern in units of 10^-1074. -/
def exactDigits (b : Nat) : Nat :=
  Pattern.units b * Nat.pow 5 1074

/-- Of the two neighbours of `b` on the grid `k`, the one that reads back as `b`. If both do, it is
the nearer one, and the upper one in the middle between them. -/
def onGrid? (b k : Nat) : Option Decimal :=
  let exact := exactDigits b
  let step := scale k
  let low := gridPoint (exact / step) k
  let high := gridPoint (exact / step + 1) k
  if low.pattern = b then
    if high.pattern = b ∧ step ≤ 2 * (exact % step) then some high else some low
  else if high.pattern = b then some high
  else none

/-- Goes from the grid `k` to finer grids until there is a hit on one. On the grid 0 the exact value
is one. -/
def firstHit (hit? : Nat → Option Decimal) (exact : Decimal) : Nat → Decimal
  | 0 => exact
  | k + 1 =>
    match hit? (k + 1) with
    | some d => d
    | none => firstHit hit? exact k

/-- The first point that reads back as `b`, on the grid `k` or on a finer one. -/
def search (b k : Nat) : Decimal :=
  firstHit (onGrid? b) (gridPoint (exactDigits b) 0) k

/-- The decimal with the fewest digits that reads back as the finite pattern `b`; of several the one
nearest to `b`. A number below 2^n is below 10^(0.30103 n), so on the first grid `b` lies between 0
and the first point. -/
def shortest (b : Nat) : Decimal :=
  if b = 0 then ⟨0, 0⟩
  else search b (((exactDigits b).log2 + 1) * 30103 / 100000 + 1)

theorem pattern_of_onGrid? {b k : Nat} {d : Decimal} (hit : onGrid? b k = some d) :
    d.pattern = b := by
  simp only [onGrid?] at hit
  split at hit
  next low =>
    split at hit
    next both => exact Option.some.inj hit ▸ both.1
    next => exact Option.some.inj hit ▸ low
  next =>
    split at hit
    next high => exact Option.some.inj hit ▸ high
    next => exact absurd hit (by simp)

end Decimal

end Lox
