import Lox.Number.Decimal

set_option autoImplicit false

namespace Lox

structure Number where
  bits : UInt64
deriving DecidableEq

namespace Number

def toFloat (n : Number) : Float :=
  Float.ofBits n.bits

def ofFloat (x : Float) : Number :=
  ⟨x.toBits⟩

def ofPattern (pattern : Nat) : Number :=
  ⟨UInt64.ofNat pattern⟩

/-- The bits below the sign. -/
def pattern (n : Number) : Nat :=
  n.bits.toNat % Pattern.signBit

def isNegative (n : Number) : Bool :=
  decide (Pattern.signBit ≤ n.bits.toNat)

def isNaN (n : Number) : Bool :=
  decide (Pattern.infinity < n.pattern)

def isInfinite (n : Number) : Bool :=
  decide (n.pattern = Pattern.infinity)

def ofDecimal (d : Decimal) : Number :=
  ofPattern d.pattern

instance : Add Number where
  add a b := ofFloat (a.toFloat + b.toFloat)

instance : Sub Number where
  sub a b := ofFloat (a.toFloat - b.toFloat)

instance : Mul Number where
  mul a b := ofFloat (a.toFloat * b.toFloat)

instance : Div Number where
  div a b := ofFloat (a.toFloat / b.toFloat)

/-- Negation turns the sign bit over, also that of a zero or a NaN. -/
instance : Neg Number where
  neg a := ⟨a.bits ^^^ 0x8000000000000000⟩

/-- IEEE order: a NaN is below nothing. -/
def lt (a b : Number) : Bool :=
  decide (a.toFloat < b.toFloat)

/-- IEEE order: a NaN is at most nothing, and the two zeros are at most each other. -/
def le (a b : Number) : Bool :=
  decide (a.toFloat ≤ b.toFloat)

/-- IEEE equality: the two zeros are equal, and a NaN equals nothing. -/
def ieeeEq (a b : Number) : Bool :=
  a.toFloat == b.toFloat

/-- Sameness: all NaNs are the same number, and the two zeros are not. -/
def same (a b : Number) : Bool :=
  a.bits == b.bits || (a.isNaN && b.isNaN)

/-- A number in positional notation with the fewest digits that read back; `infinity` is the word
for an infinity. The sign of a NaN is not written. -/
def text (n : Number) (infinity : String) : String :=
  if n.isNaN then "NaN"
  else
    let magnitude :=
      if n.isInfinite then infinity else String.ofList (Decimal.shortest n.pattern).text
    if n.isNegative then "-" ++ magnitude else magnitude

end Number

end Lox
