import Lox.Line
import Lox.Parser.Frame

set_option autoImplicit false

namespace Lox

structure SyntaxError where
  fault : Parser.Fault
  token : Token
deriving DecidableEq

def SyntaxError.diagnostic (e : SyntaxError) : Diagnostic :=
  e.token.diagnostic e.fault.message

structure Parser where
  position : Nat
  /-- The tokens from the current one to the end-of-input token, which is not among them. -/
  pending : List Token
  ending : Token
deriving DecidableEq

namespace Parser

/-- A parser at the first of some tokens. If they lack an end-of-input token, it stands on the line
of the last one. -/
def ofTokens (tokens : List Token) : Parser where
  position := 0
  pending := tokens.takeWhile (·.type ≠ .endOfInput)
  ending :=
    match tokens.find? (·.type = .endOfInput) with
    | some ending => ending
    | none => Token.endOfInput ((tokens.getLast?.map Token.line).getD firstLine)

def current (p : Parser) : Token :=
  p.pending.head?.getD p.ending

/-- Moves on to the given last part of the pending tokens. -/
def moveTo (rest : List Token) (p : Parser) : Parser :=
  { p with position := p.position + (p.pending.length - rest.length), pending := rest }

/-- Drops tokens up to one that starts a statement or follows a semicolon; `before` is the type of
the token in front of them. -/
def resumption (before : TokenType) : List Token → List Token
  | [] => []
  | t :: rest =>
    if before = .semicolon ∨ t.type.startsStatement then t :: rest
    else resumption t.type rest

/-- The tokens to go on with after a fault at the first of the given ones, which is passed in any
case. -/
def resynchronize : List Token → List Token
  | [] => []
  | offending :: rest => resumption offending.type rest

def parse (p : Parser) : Except SyntaxError Expr × Parser :=
  match State.start.run p.pending with
  | .ok e => (.ok e, p.moveTo [])
  | .error failure =>
    (.error ⟨failure.fault, (p.moveTo failure.rest).current⟩,
      p.moveTo (resynchronize failure.rest))

def attempts : Nat → Parser → List (Except SyntaxError Expr × Parser)
  | 0, _ => []
  | n + 1, p =>
    let step := p.parse
    step :: attempts n step.2

end Parser

end Lox
