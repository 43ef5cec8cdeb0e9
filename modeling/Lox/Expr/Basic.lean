import Lox.Token.Basic

set_option autoImplicit false

namespace Lox

inductive Expr where
  | literal (value : Value)
  | grouping (inner : Expr)
  | unary (operator : Token) (operand : Expr)
  | binary (left : Expr) (operator : Token) (right : Expr)
deriving DecidableEq

namespace Expr

/-- The tree in prefix form, each operator before its operands and in parentheses with them. An
infinite literal is written `inf`. -/
def text : Expr → String
  | literal value => value.textWith "inf"
  | grouping inner => "(group " ++ inner.text ++ ")"
  | unary operator operand => "(" ++ operator.lexeme ++ " " ++ operand.text ++ ")"
  | binary left operator right =>
    "(" ++ operator.lexeme ++ " " ++ left.text ++ " " ++ right.text ++ ")"

/-- Equality of trees in which numbers compare as IEEE 754 says. -/
def agrees : Expr → Expr → Bool
  | literal a, literal b => a.agrees b
  | grouping a, grouping b => a.agrees b
  | unary f a, unary g b => f.agrees g && a.agrees b
  | binary a f b, binary c g d => a.agrees c && f.agrees g && b.agrees d
  | _, _ => false

end Expr

end Lox
