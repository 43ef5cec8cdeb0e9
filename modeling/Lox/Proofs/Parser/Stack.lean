import Lox.Parser.Frame
import Lox.Proofs.Expr.Shape

set_option autoImplicit false

namespace Lox.Parser

/-- The least level that an operand on top of the frames can have. -/
def need : List Frame → Nat
  | [] | .group :: _ => 1
  | .unary _ :: _ => TokenType.plus.level
  | .binary _ operator :: _ => operator.type.level + 1

theorem need_le_operandLevel (frames : List Frame) : need frames ≤ TokenType.operandLevel := by
  cases frames with
  | nil => decide
  | cons frame frames =>
    cases frame with
    | group => exact (by decide : 1 ≤ TokenType.operandLevel)
    | unary operator => exact (by decide : TokenType.plus.level ≤ TokenType.operandLevel)
    | binary left operator => exact operator.type.level_lt_operandLevel

theorem need_close_le {level : Nat} (positive : 1 ≤ level) (frames : List Frame) (operand : Expr) :
    need (close level frames operand).1 ≤ level := by
  induction frames generalizing operand with
  | nil => exact positive
  | cons frame frames ih =>
    cases frame with
    | group => exact positive
    | unary operator =>
      rw [close]
      split
      next => exact ih _
      next high => exact Nat.not_lt.mp high
    | binary left operator =>
      rw [close]
      split
      next => exact ih _
      next high => exact Nat.not_le.mp high

/-- Level 0 closes everything up to the next open parenthesis. -/
theorem close_zero (frames : List Frame) (operand : Expr) :
    (close 0 frames operand).1 = [] ∨ ∃ below, (close 0 frames operand).1 = .group :: below := by
  induction frames generalizing operand with
  | nil => exact Or.inl rfl
  | cons frame frames ih =>
    cases frame with
    | group => exact Or.inr ⟨frames, rfl⟩
    | unary operator => exact ih _
    | binary left operator =>
      rw [close, if_pos (Nat.zero_le _)]
      exact ih _

/-- An operand whose level the stack takes is not joined with the frames below it. -/
theorem close_of_need_le {level : Nat} {frames : List Frame} (room : need frames ≤ level)
    (operand : Expr) : close level frames operand = (frames, operand) := by
  cases frames with
  | nil => rfl
  | cons frame frames =>
    cases frame with
    | group => rfl
    | unary operator =>
      have high : TokenType.plus.level ≤ level := room
      rw [close, if_neg (Nat.not_lt.mpr high)]
    | binary left operator =>
      have high : operator.type.level < level := room
      rw [close, if_neg (Nat.not_le.mpr high)]

/-- A stack with a complete operand amounts to a whole tree on top of other frames: at every level
that the tree reaches, it closes as if the tree stood there in one piece. -/
def Amounts (stack : List Frame) (operand : Expr) (frames : List Frame) (e : Expr) : Prop :=
  ∀ level, level ≤ e.level → (TokenType.plus.level ≤ level → e.endsOpen = false) →
    close level stack operand = close level frames e

namespace Amounts

variable {stack frames : List Frame} {operand left e : Expr} {operator : Token}

theorem refl (frames : List Frame) (e : Expr) : Amounts frames e frames e :=
  fun _ _ _ => rfl

theorem unary (amounts : Amounts stack operand (.unary operator :: frames) e)
    (reaches : TokenType.plus.level ≤ e.level) :
    Amounts stack operand frames (.unary operator e) := by
  intro level _ closed
  have low : level < TokenType.plus.level := by
    apply Nat.not_le.mp
    intro high
    cases closed high
  rw [amounts level (Nat.le_trans (Nat.le_of_lt low) reaches)
      (fun high => absurd low (Nat.not_lt.mpr high)),
    close, if_pos low]

theorem binary (amounts : Amounts stack operand (.binary left operator :: frames) e)
    (reaches : operator.type.level + 1 ≤ e.level) :
    Amounts stack operand frames (.binary left operator e) := by
  intro level low closed
  have below : level ≤ operator.type.level := low
  rw [amounts level (Nat.le_trans below (Nat.le_of_succ_le reaches)) closed, close, if_pos below]

theorem close_eq (amounts : Amounts stack operand frames e) {level : Nat}
    (room : need frames ≤ level) (reaches : level ≤ e.level)
    (closed : TokenType.plus.level ≤ level → e.endsOpen = false) :
    close level stack operand = (frames, e) := by
  rw [amounts level reaches closed, close_of_need_le room]

theorem close_zero_group (amounts : Amounts stack operand (.group :: frames) e) :
    close 0 stack operand = (.group :: frames, e) :=
  amounts 0 (Nat.zero_le _) (fun high => absurd high (by decide))

/-- Level 0 brings out the whole tree where nothing is below it. -/
theorem close_zero_nil (amounts : Amounts stack operand [] e) :
    close 0 stack operand = ([], e) :=
  amounts 0 (Nat.zero_le _) (fun high => absurd high (by decide))

end Amounts

section Run

variable {t : Token} {frames : List Frame} (rest : List Token)

theorem run_unary (isUnary : t.type.isUnary = true) :
    (State.expecting frames).run (t :: rest) =
      (State.expecting (.unary t :: frames)).run rest := by
  simp only [State.run, State.step, isUnary, ↓reduceIte]

theorem run_leftParen (opens : t.type = .leftParen) :
    (State.expecting frames).run (t :: rest) = (State.expecting (.group :: frames)).run rest := by
  simp only [State.run, State.step, opens, TokenType.isUnary, Bool.false_eq_true, ↓reduceIte]

theorem run_value {value : Value} (stands : t.StandsFor value) :
    (State.expecting frames).run (t :: rest) =
      (State.complete frames (.literal value)).run rest := by
  have found := (t.value?_eq_some_iff value).mpr stands
  have atomic : t.type.isUnary = false ∧ t.type ≠ .leftParen := by
    cases value with
    | number n => simp [stands.1, TokenType.isUnary]
    | string s => simp [stands.1, TokenType.isUnary]
    | boolean b => cases b <;> simp_all [Token.StandsFor, TokenType.isUnary]
    | nil => simp_all [Token.StandsFor, TokenType.isUnary]
  simp only [State.run, State.step, atomic, found, Bool.false_eq_true, ↓reduceIte]

theorem run_noOperand (noUnary : t.type.isUnary = false) (noParen : t.type ≠ .leftParen)
    (noValue : t.value? = none) :
    (State.expecting frames).run (t :: rest) = .error ⟨.expectedExpression, t :: rest⟩ := by
  simp only [State.run, State.step, noUnary, noParen, noValue, Bool.false_eq_true, ↓reduceIte]

theorem run_binary {operand : Expr} (isBinary : 1 ≤ t.type.level) :
    (State.complete frames operand).run (t :: rest) =
      (State.expecting (.binary (close t.type.level frames operand).2 t ::
        (close t.type.level frames operand).1)).run rest := by
  have positive : 0 < t.type.level := isBinary
  simp only [State.run, State.step, positive, ↓reduceIte]

theorem run_rightParen {operand inner : Expr} {below : List Frame} (closes : t.type = .rightParen)
    (shape : close 0 frames operand = (.group :: below, inner)) :
    (State.complete frames operand).run (t :: rest) =
      (State.complete below (.grouping inner)).run rest := by
  simp only [State.run, State.step, closes, TokenType.level, shape, Nat.lt_irrefl, ↓reduceIte]

theorem run_unclosed {operand inner : Expr} {below : List Frame} (noOperator : t.type.level = 0)
    (noParen : t.type ≠ .rightParen) (shape : close 0 frames operand = (.group :: below, inner)) :
    (State.complete frames operand).run (t :: rest) = .error ⟨.expectedRightParen, t :: rest⟩ := by
  simp only [State.run, State.step, noOperator, noParen, shape, Nat.lt_irrefl, ↓reduceIte]

theorem run_trailing {operand e : Expr} (noOperator : t.type.level = 0)
    (shape : close 0 frames operand = ([], e)) :
    (State.complete frames operand).run (t :: rest) = .error ⟨.expectedEnd, t :: rest⟩ := by
  simp only [State.run, State.step, noOperator, shape, Nat.lt_irrefl, ↓reduceIte]

theorem run_nil_unclosed {operand inner : Expr} {below : List Frame}
    (shape : close 0 frames operand = (.group :: below, inner)) :
    (State.complete frames operand).run [] = .error ⟨.expectedRightParen, []⟩ := by
  simp only [State.run, State.finish, shape]

end Run

/-- Without further tokens, a complete operand is a whole expression when it closes to that with
nothing left open. -/
theorem run_nil_eq_ok_iff (frames : List Frame) (operand e : Expr) :
    (State.complete frames operand).run [] = .ok e ↔ close 0 frames operand = ([], e) := by
  have shape := close_zero frames operand
  rw [State.run, State.finish]
  generalize close 0 frames operand = closed at shape ⊢
  obtain ⟨left, inner⟩ := closed
  rcases shape with rfl | ⟨below, rfl⟩
  · simp only [Except.ok.injEq, Prod.mk.injEq, true_and]
  · simp only [reduceCtorEq, Prod.mk.injEq, false_and]

end Lox.Parser
