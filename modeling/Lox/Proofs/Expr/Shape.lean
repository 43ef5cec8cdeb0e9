import Lox.Expr.Basic

set_option autoImplicit false

namespace Lox

/-- The token is an operand by itself, with the given value. -/
def Token.StandsFor (t : Token) : Value → Prop
  | .number n => t.type = .number ∧ t.literal = some (.number n)
  | .string s => t.type = .string ∧ t.literal = some (.string s)
  | .boolean b => t.type = if b then .kwTrue else .kwFalse
  | .nil => t.type = .kwNil

theorem Token.value?_eq_some_iff (t : Token) (value : Value) :
    t.value? = some value ↔ t.StandsFor value := by
  obtain ⟨type, lexeme, literal, line⟩ := t
  constructor
  · intro found
    simp only [Token.value?] at found
    split at found <;> simp only [Option.some.injEq, reduceCtorEq] at found <;> subst found <;>
      simp_all [Token.StandsFor]
  · intro stands
    cases value with
    | number n => simp_all [Token.StandsFor, Token.value?]
    | string s => simp_all [Token.StandsFor, Token.value?]
    | boolean b => cases b <;> simp_all [Token.StandsFor, Token.value?]
    | nil => simp_all [Token.StandsFor, Token.value?]

namespace TokenType

/-- The level of an operand that no operator can break up. -/
def operandLevel : Nat := 5

theorem level_lt_operandLevel (type : TokenType) : type.level < operandLevel := by
  cases type <;> decide

end TokenType

namespace Expr

/-- The level of the topmost operator. -/
def level : Expr → Nat
  | literal _ | grouping _ | unary _ _ => TokenType.operandLevel
  | binary _ operator _ => operator.type.level

/-- Whether a unary operator stands at the right edge, so that it would also take what follows. -/
def endsOpen : Expr → Bool
  | literal _ | grouping _ => false
  | unary _ _ => true
  | binary _ _ right => right.endsOpen

/-- Each operator has operands of a level that it can take. The operand of a unary operator is a
whole sum, operators of one level group to the left, and nothing that binds as tightly as a sum
follows an operand that ends open. -/
def WellFormed : Expr → Prop
  | literal _ => True
  | grouping inner => inner.WellFormed
  | unary operator operand =>
    operator.type ∈ [.bang, .minus] ∧ TokenType.plus.level ≤ operand.level ∧ operand.WellFormed
  | binary left operator right =>
    1 ≤ operator.type.level ∧ operator.type.level ≤ left.level ∧
      operator.type.level + 1 ≤ right.level ∧
      (TokenType.plus.level ≤ operator.type.level → left.endsOpen = false) ∧
      left.WellFormed ∧ right.WellFormed

/-- The tokens of a tree from left to right. The operators of the tree are the very tokens, and
parentheses and literals are known by their types and literals alone. -/
inductive Spells : Expr → List Token → Prop
  | literal {t : Token} {value : Value} (stands : t.StandsFor value) :
    Spells (.literal value) [t]
  | grouping {opening closing : Token} {inner : Expr} {word : List Token}
    (opens : opening.type = .leftParen) (spelled : Spells inner word)
    (closes : closing.type = .rightParen) :
    Spells (.grouping inner) (opening :: (word ++ [closing]))
  | unary {operator : Token} {operand : Expr} {word : List Token} (spelled : Spells operand word) :
    Spells (.unary operator operand) (operator :: word)
  | binary {operator : Token} {left right : Expr} {first second : List Token}
    (before : Spells left first) (behind : Spells right second) :
    Spells (.binary left operator right) (first ++ operator :: second)

theorem WellFormed.one_le_level {e : Expr} (formed : e.WellFormed) : 1 ≤ e.level := by
  cases e with
  | literal value => exact (by decide : 1 ≤ TokenType.operandLevel)
  | grouping inner => exact (by decide : 1 ≤ TokenType.operandLevel)
  | unary operator operand => exact (by decide : 1 ≤ TokenType.operandLevel)
  | binary left operator right => exact formed.1

end Expr

end Lox
