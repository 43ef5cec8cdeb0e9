set_option autoImplicit false

namespace Lox

inductive TokenType where
  | leftParen | rightParen | leftBrace | rightBrace
  | comma | dot | minus | plus | semicolon | slash | star
  | bang | bangEqual | equal | equalEqual
  | greater | greaterEqual | less | lessEqual
  | identifier | string | number
  | kwAnd | kwClass | kwElse | kwFalse | kwFun | kwFor | kwIf | kwNil
  | kwOr | kwPrint | kwReturn | kwSuper | kwThis | kwTrue | kwVar | kwWhile
  | endOfInput
deriving DecidableEq

namespace TokenType

def keyword? : String → Option TokenType
  | "and" => some kwAnd
  | "class" => some kwClass
  | "else" => some kwElse
  | "false" => some kwFalse
  | "fun" => some kwFun
  | "for" => some kwFor
  | "if" => some kwIf
  | "nil" => some kwNil
  | "or" => some kwOr
  | "print" => some kwPrint
  | "return" => some kwReturn
  | "super" => some kwSuper
  | "this" => some kwThis
  | "true" => some kwTrue
  | "var" => some kwVar
  | "while" => some kwWhile
  | _ => none

/-- How tightly a binary operator binds, from 1 for equality to 4 for multiplication. It is 0 for
everything that is not a binary operator. -/
def level : TokenType → Nat
  | bangEqual | equalEqual => 1
  | greater | greaterEqual | less | lessEqual => 2
  | plus | minus => 3
  | star | slash => 4
  | _ => 0

def isUnary : TokenType → Bool
  | bang | minus => true
  | _ => false

theorem isUnary_iff (type : TokenType) : type.isUnary = true ↔ type ∈ [bang, minus] := by
  cases type <;> decide

def startsStatement : TokenType → Bool
  | kwClass | kwFun | kwVar | kwFor | kwIf | kwWhile | kwPrint | kwReturn => true
  | _ => false

def name : TokenType → String
  | leftParen => "LEFT_PAREN"
  | rightParen => "RIGHT_PAREN"
  | leftBrace => "LEFT_BRACE"
  | rightBrace => "RIGHT_BRACE"
  | comma => "COMMA"
  | dot => "DOT"
  | minus => "MINUS"
  | plus => "PLUS"
  | semicolon => "SEMICOLON"
  | slash => "SLASH"
  | star => "STAR"
  | bang => "BANG"
  | bangEqual => "BANG_EQUAL"
  | equal => "EQUAL"
  | equalEqual => "EQUAL_EQUAL"
  | greater => "GREATER"
  | greaterEqual => "GREATER_EQUAL"
  | less => "LESS"
  | lessEqual => "LESS_EQUAL"
  | identifier => "IDENTIFIER"
  | string => "STRING"
  | number => "NUMBER"
  | kwAnd => "AND"
  | kwClass => "CLASS"
  | kwElse => "ELSE"
  | kwFalse => "FALSE"
  | kwFun => "FUN"
  | kwFor => "FOR"
  | kwIf => "IF"
  | kwNil => "NIL"
  | kwOr => "OR"
  | kwPrint => "PRINT"
  | kwReturn => "RETURN"
  | kwSuper => "SUPER"
  | kwThis => "THIS"
  | kwTrue => "TRUE"
  | kwVar => "VAR"
  | kwWhile => "WHILE"
  | endOfInput => "EOF"

def all : List TokenType :=
  [leftParen, rightParen, leftBrace, rightBrace, comma, dot, minus, plus, semicolon, slash, star,
    bang, bangEqual, equal, equalEqual, greater, greaterEqual, less, lessEqual,
    identifier, string, number,
    kwAnd, kwClass, kwElse, kwFalse, kwFun, kwFor, kwIf, kwNil,
    kwOr, kwPrint, kwReturn, kwSuper, kwThis, kwTrue, kwVar, kwWhile, endOfInput]

def ofName? (name : String) : Option TokenType :=
  all.find? fun type => type.name == name

theorem ofName?_name (type : TokenType) : ofName? type.name = some type := by
  cases type <;> decide

end TokenType

end Lox
