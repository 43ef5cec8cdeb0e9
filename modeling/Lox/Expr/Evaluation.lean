import Lox.Expr.Basic

set_option autoImplicit false

namespace Lox

inductive RuntimeFault where
  | operandMustBeNumber
  | invalidPlusOperands
deriving DecidableEq

def RuntimeFault.message : RuntimeFault → String
  | operandMustBeNumber => "Operand must be a number."
  | invalidPlusOperands => "both operands must be a number or a string."

/-- A fault, with the text and the line of the operator that could not be applied. -/
structure RuntimeError where
  fault : RuntimeFault
  operator : String
  line : Nat
deriving DecidableEq

/-- The report of a runtime error: its message, and below that its line. -/
def RuntimeError.text (e : RuntimeError) : String :=
  e.fault.message ++ "\n[line " ++ toString e.line ++ "]"

namespace Value

/-- Negation needs a number, and `!` takes every value. -/
def unary (operator : TokenType) (operand : Value) : Except RuntimeFault Value :=
  match operator, operand with
  | .minus, .number n => .ok (.number (-n))
  | .bang, v => .ok (.boolean !v.isTruthy)
  | _, _ => .error .operandMustBeNumber

def onNumbers (operation : Number → Number → Value) : Value → Value → Except RuntimeFault Value
  | number a, number b => .ok (operation a b)
  | _, _ => .error .operandMustBeNumber

/-- The sum of two numbers, or the text of any value followed by a string. -/
def plus : Value → Value → Except RuntimeFault Value
  | number a, number b => .ok (.number (a + b))
  | left, string s => .ok (.string (left.text ++ s))
  | _, _ => .error .invalidPlusOperands

/-- Equality takes all values, `+` the pairs that `plus` takes, and every other operator only
numbers. -/
def binary (left : Value) (operator : TokenType) (right : Value) : Except RuntimeFault Value :=
  match operator with
  | .equalEqual => .ok (.boolean (left.equals right))
  | .bangEqual => .ok (.boolean !left.equals right)
  | .plus => left.plus right
  | .minus => onNumbers (fun a b => .number (a - b)) left right
  | .slash => onNumbers (fun a b => .number (a / b)) left right
  | .star => onNumbers (fun a b => .number (a * b)) left right
  | .greater => onNumbers (fun a b => .boolean (b.lt a)) left right
  | .greaterEqual => onNumbers (fun a b => .boolean (b.le a)) left right
  | .less => onNumbers (fun a b => .boolean (a.lt b)) left right
  | .lessEqual => onNumbers (fun a b => .boolean (a.le b)) left right
  | _ => .error .operandMustBeNumber

end Value

def Token.applied (operator : Token) : Except RuntimeFault Value → Except RuntimeError Value
  | .ok value => .ok value
  | .error fault => .error ⟨fault, operator.lexeme, operator.line⟩

namespace Expr

def evaluate : Expr → Except RuntimeError Value
  | literal value => .ok value
  | grouping inner => inner.evaluate
  | unary operator operand => do
    let value ← operand.evaluate
    operator.applied (value.unary operator.type)
  | binary left operator right => do
    let a ← left.evaluate
    let b ← right.evaluate
    operator.applied (a.binary operator.type b)

theorem evaluate_unary (operator : Token) (operand : Expr) :
    (unary operator operand).evaluate =
      operand.evaluate.bind fun value => operator.applied (value.unary operator.type) := rfl

theorem evaluate_binary (left : Expr) (operator : Token) (right : Expr) :
    (binary left operator right).evaluate =
      left.evaluate.bind fun a => right.evaluate.bind fun b =>
        operator.applied (a.binary operator.type b) := rfl

end Expr

end Lox
