import Lox.Number.Basic

set_option autoImplicit false

namespace Lox

inductive Value where
  | number (n : Number)
  | string (s : String)
  | boolean (b : Bool)
  | nil
deriving DecidableEq

namespace Value

def isTruthy : Value → Bool
  | nil => false
  | boolean b => b
  | number _ => true
  | string _ => true

/-- Equality as the operators `==` and `!=` see it: numbers are equal when they are the same number,
and values of different kinds never are. -/
def equals : Value → Value → Bool
  | number a, number b => a.same b
  | string a, string b => a == b
  | boolean a, boolean b => a == b
  | nil, nil => true
  | _, _ => false

/-- Equality in which numbers compare as IEEE 754 says, so that a NaN differs from itself. -/
def agrees : Value → Value → Bool
  | number a, number b => a.ieeeEq b
  | string a, string b => a == b
  | boolean a, boolean b => a == b
  | nil, nil => true
  | _, _ => false

/-- The text of a value, with the given word for an infinite number. Strings stand without
quotes. -/
def textWith (infinity : String) : Value → String
  | number n => n.text infinity
  | string s => s
  | boolean b => if b then "true" else "false"
  | nil => "nil"

def text (v : Value) : String :=
  v.textWith "Infinity"

end Value

end Lox
