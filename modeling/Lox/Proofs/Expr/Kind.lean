import Lox.Expr.Evaluation

set_option autoImplicit false

namespace Lox

inductive Kind where
  | number | string | boolean | nil
deriving DecidableEq

def Value.kind : Value → Kind
  | number _ => .number
  | string _ => .string
  | boolean _ => .boolean
  | nil => .nil

def Value.SameKind (a b : Value) : Prop :=
  a.kind = b.kind

namespace Kind

def unary (operator : TokenType) (operand : Kind) : Except RuntimeFault Kind :=
  match operator, operand with
  | .minus, number => .ok number
  | .bang, _ => .ok boolean
  | _, _ => .error .operandMustBeNumber

def onNumbers (result : Kind) : Kind → Kind → Except RuntimeFault Kind
  | number, number => .ok result
  | _, _ => .error .operandMustBeNumber

def plus : Kind → Kind → Except RuntimeFault Kind
  | number, number => .ok number
  | _, string => .ok string
  | _, _ => .error .invalidPlusOperands

def binary (left : Kind) (operator : TokenType) (right : Kind) : Except RuntimeFault Kind :=
  match operator with
  | .equalEqual | .bangEqual => .ok boolean
  | .plus => left.plus right
  | .minus | .slash | .star => onNumbers number left right
  | .greater | .greaterEqual | .less | .lessEqual => onNumbers boolean left right
  | _ => .error .operandMustBeNumber

end Kind

namespace Value

theorem kind_unary (operator : TokenType) (operand : Value) :
    (operand.unary operator).map kind = operand.kind.unary operator := by
  cases operator with
  | minus => cases operand <;> rfl
  | bang => rfl
  | _ => rfl

theorem kind_onNumbers {operation : Number → Number → Value} {result : Kind}
    (gives : ∀ a b, (operation a b).kind = result) (left right : Value) :
    (onNumbers operation left right).map kind = Kind.onNumbers result left.kind right.kind := by
  cases left with
  | number a =>
    cases right with
    | number b => exact congrArg Except.ok (gives a b)
    | _ => rfl
  | _ => rfl

theorem kind_plus (left right : Value) :
    (left.plus right).map kind = left.kind.plus right.kind := by
  cases left <;> cases right <;> rfl

theorem kind_binary (left : Value) (operator : TokenType) (right : Value) :
    (left.binary operator right).map kind = left.kind.binary operator right.kind := by
  cases operator with
  | plus => exact kind_plus left right
  | minus | slash | star | greater | greaterEqual | less | lessEqual =>
    simp only [binary, Kind.binary]
    apply kind_onNumbers
    exact fun _ _ => rfl
  | _ => rfl

end Value

/-- The error of an operator that cannot be applied. -/
def Token.blamed (operator : Token) (fault : RuntimeFault) : RuntimeError :=
  ⟨fault, operator.lexeme, operator.line⟩

theorem Token.map_applied {α : Type} (f : Value → α) (operator : Token)
    (outcome : Except RuntimeFault Value) :
    (operator.applied outcome).map f = (outcome.map f).mapError operator.blamed := by
  cases outcome <;> rfl

/-- The tokens say the same as operators: what they do, and what an error tells of them. -/
structure Token.SameOperator (a b : Token) : Prop where
  type : a.type = b.type
  lexeme : a.lexeme = b.lexeme
  line : a.line = b.line

theorem Token.SameOperator.blamed {a b : Token} (same : a.SameOperator b) :
    a.blamed = b.blamed := by
  funext fault
  rw [Token.blamed, Token.blamed, same.lexeme, same.line]

namespace Expr

def kind : Expr → Except RuntimeError Kind
  | literal value => .ok value.kind
  | grouping inner => inner.kind
  | unary operator operand =>
    operand.kind.bind fun k => (k.unary operator.type).mapError operator.blamed
  | binary left operator right =>
    left.kind.bind fun k => right.kind.bind fun l =>
      (k.binary operator.type l).mapError operator.blamed

/-- Checking the kinds foretells whether an expression has a value, of what kind that is, and the
error if there is none. -/
theorem map_kind_evaluate (e : Expr) : e.evaluate.map Value.kind = e.kind := by
  induction e with
  | literal value => rfl
  | grouping inner ih => exact ih
  | unary operator operand ih =>
    rw [evaluate_unary, kind, ← ih]
    cases operand.evaluate with
    | error error => rfl
    | ok value =>
      simp only [Except.bind, Except.map, ← Value.kind_unary]
      exact operator.map_applied Value.kind _
  | binary left operator right ihl ihr =>
    rw [evaluate_binary, kind, ← ihl, ← ihr]
    cases left.evaluate with
    | error error => rfl
    | ok a =>
      cases right.evaluate with
      | error error => rfl
      | ok b =>
        simp only [Except.bind, Except.map, ← Value.kind_binary]
        exact operator.map_applied Value.kind _

/-- Trees of one shape, with the same operators and with related literals in the same places. -/
inductive Alike (related : Value → Value → Prop) : Expr → Expr → Prop
  | literal {a b : Value} (values : related a b) : Alike related (.literal a) (.literal b)
  | grouping {a b : Expr} (inner : Alike related a b) : Alike related (.grouping a) (.grouping b)
  | unary {f g : Token} {a b : Expr} (same : f.SameOperator g) (operand : Alike related a b) :
    Alike related (.unary f a) (.unary g b)
  | binary {f g : Token} {a b c d : Expr} (left : Alike related a b) (same : f.SameOperator g)
    (right : Alike related c d) : Alike related (.binary a f c) (.binary b g d)

theorem Alike.kind_eq {a b : Expr} (alike : Alike Value.SameKind a b) : a.kind = b.kind := by
  induction alike with
  | literal values => exact congrArg Except.ok values
  | grouping inner ih => exact ih
  | unary same operand ih => rw [kind, kind, ih, same.type, same.blamed]
  | binary left same right ihl ihr => rw [kind, kind, ihl, ihr, same.type, same.blamed]

/-- Whether, where and how an evaluation fails depends on the kinds of the literals and never on
their values, and so does the kind of the value if it does not fail. -/
theorem evaluate_of_alike {a b : Expr} (alike : Alike Value.SameKind a b) :
    (∃ v w, a.evaluate = .ok v ∧ b.evaluate = .ok w ∧ v.SameKind w) ∨
      ∃ error, a.evaluate = .error error ∧ b.evaluate = .error error := by
  have foretold : a.evaluate.map Value.kind = b.evaluate.map Value.kind := by
    rw [map_kind_evaluate, map_kind_evaluate, alike.kind_eq]
  cases first : a.evaluate with
  | ok v =>
    cases second : b.evaluate with
    | ok w =>
      rw [first, second] at foretold
      exact .inl ⟨v, w, rfl, rfl, Except.ok.inj foretold⟩
    | error error => rw [first, second] at foretold; cases foretold
  | error error =>
    cases second : b.evaluate with
    | ok w => rw [first, second] at foretold; cases foretold
    | error other =>
      rw [first, second] at foretold
      exact .inr ⟨error, rfl, congrArg Except.error (Except.error.inj foretold).symm⟩

/-- A NaN in the place of a number, below an operator that fails. -/
theorem evaluate_of_alike_nan :
    let minus : Token := ⟨.minus, "-", none, 1⟩
    let plus : Token := ⟨.plus, "+", none, 3⟩
    let a := binary (unary minus (literal (.number ⟨0⟩))) plus (literal (.boolean true))
    let b := binary (unary minus (literal (.number ⟨0x7FF8000000000000⟩)))
      { plus with literal := some (.string "") } (literal (.boolean false))
    Alike Value.SameKind a b ∧
      ((∃ v w, a.evaluate = .ok v ∧ b.evaluate = .ok w ∧ v.SameKind w) ∨
        ∃ error, a.evaluate = .error error ∧ b.evaluate = .error error) := by
  intro minus plus a b
  have alike : Alike Value.SameKind a b :=
    .binary (.unary ⟨rfl, rfl, rfl⟩ (.literal rfl)) ⟨rfl, rfl, rfl⟩ (.literal rfl)
  exact ⟨alike, evaluate_of_alike alike⟩

end Expr

end Lox
