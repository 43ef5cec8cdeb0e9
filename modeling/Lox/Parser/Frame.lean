import Lox.Expr.Basic

set_option autoImplicit false

namespace Lox.Parser

/-- A part of an expression that lacks its last operand. -/
inductive Frame where
  | group
  | unary (operator : Token)
  | binary (left : Expr) (operator : Token)
deriving DecidableEq

/-- Joins an operand with the frames that are complete before an operator of the given level.
Operators of one level group to the left, and the operand of a unary operator extends over all
operators that bind as tightly as `+` or more. Level 0, the level of all other tokens, completes
everything up to the next open parenthesis. -/
def close (level : Nat) : List Frame → Expr → List Frame × Expr
  | [], e => ([], e)
  | .group :: frames, e => (.group :: frames, e)
  | .unary operator :: frames, e =>
    if level < TokenType.plus.level then close level frames (.unary operator e)
    else (.unary operator :: frames, e)
  | .binary left operator :: frames, e =>
    if level ≤ operator.type.level then close level frames (.binary left operator e)
    else (.binary left operator :: frames, e)

/-- What the tokens read so far amount to: either the next token has to start an operand, or an
operand is complete. -/
inductive State where
  | expecting (frames : List Frame)
  | complete (frames : List Frame) (operand : Expr)
deriving DecidableEq

inductive Fault where
  | expectedExpression
  | expectedRightParen
  | expectedEnd
deriving DecidableEq

def Fault.message : Fault → String
  | expectedExpression => "Expect expression."
  | expectedRightParen => "Expect ')' after expression"
  | expectedEnd => "Expect end of expression."

def State.start : State :=
  .expecting []

/-- Reads one token. -/
def State.step (t : Token) : State → Except Fault State
  | expecting frames =>
    if t.type.isUnary then .ok (.expecting (.unary t :: frames))
    else if t.type = .leftParen then .ok (.expecting (.group :: frames))
    else
      match t.value? with
      | some value => .ok (.complete frames (.literal value))
      | none => .error .expectedExpression
  | complete frames operand =>
    if 0 < t.type.level then
      let (frames, left) := close t.type.level frames operand
      .ok (.expecting (.binary left t :: frames))
    else
      match close 0 frames operand with
      | (.group :: frames, inner) =>
        if t.type = .rightParen then .ok (.complete frames (.grouping inner))
        else .error .expectedRightParen
      | _ => .error .expectedEnd

def State.finish : State → Except Fault Expr
  | expecting _ => .error .expectedExpression
  | complete frames operand =>
    match close 0 frames operand with
    | (.group :: _, _) => .error .expectedRightParen
    | (_, e) => .ok e

/-- A fault and the tokens from the offending one on; none are left if it is the end of input. -/
structure Failure where
  fault : Fault
  rest : List Token
deriving DecidableEq

/-- Reads all tokens as one expression. -/
def State.run : State → List Token → Except Failure Expr
  | s, [] =>
    match s.finish with
    | .ok e => .ok e
    | .error fault => .error ⟨fault, []⟩
  | s, t :: rest =>
    match s.step t with
    | .ok later => later.run rest
    | .error fault => .error ⟨fault, t :: rest⟩

/-- What a failed run leaves is the end of what it was given. -/
theorem State.rest_suffix_of_run {s : State} {tokens : List Token} {failure : Failure}
    (failed : s.run tokens = .error failure) : failure.rest <:+ tokens := by
  induction tokens generalizing s with
  | nil =>
    simp only [run] at failed
    split at failed
    next => exact absurd failed (by simp)
    next => exact Except.error.inj failed ▸ List.suffix_rfl
  | cons t rest ih =>
    simp only [run] at failed
    split at failed
    next later _ => exact (ih failed).trans (List.suffix_cons t rest)
    next => exact Except.error.inj failed ▸ List.suffix_rfl

end Lox.Parser
