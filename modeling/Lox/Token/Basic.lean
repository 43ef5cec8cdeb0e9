import Lox.Diagnostic
import Lox.Token.Type
import Lox.Value

set_option autoImplicit false

namespace Lox

inductive Literal where
  | number (n : Number)
  | string (s : String)
deriving DecidableEq

namespace Literal

/-- Equality in which numbers compare as IEEE 754 says. -/
def agrees : Literal → Literal → Bool
  | number a, number b => a.ieeeEq b
  | string a, string b => a == b
  | _, _ => false

def agreesIfAny : Option Literal → Option Literal → Bool
  | some a, some b => a.agrees b
  | none, none => true
  | _, _ => false

end Literal

structure Token where
  type : TokenType
  lexeme : String
  literal : Option Literal
  line : Nat
deriving DecidableEq

namespace Token

def endOfInput (line : Nat) : Token :=
  ⟨.endOfInput, "", none, line⟩

def location (t : Token) : Location :=
  if t.type = .endOfInput then .atEnd else .atLexeme t.lexeme

def diagnostic (t : Token) (message : String) : Diagnostic :=
  ⟨t.line, t.location, message⟩

/-- The value of a token that is an expression by itself. A number or a string needs a literal of
its kind. -/
def value? (t : Token) : Option Value :=
  match t.type, t.literal with
  | .kwFalse, _ => some (.boolean false)
  | .kwTrue, _ => some (.boolean true)
  | .kwNil, _ => some .nil
  | .number, some (.number n) => some (.number n)
  | .string, some (.string s) => some (.string s)
  | _, _ => none

def agrees (a b : Token) : Bool :=
  a.type == b.type && a.lexeme == b.lexeme && Literal.agreesIfAny a.literal b.literal
    && a.line == b.line

end Token

end Lox
