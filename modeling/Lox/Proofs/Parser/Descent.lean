import Lox.Parser.Basic
import Lox.Proofs.Parser.Stack

set_option autoImplicit false

namespace Lox.Parser

/-- An expression read off some tokens, and the tokens behind it, of which there are fewer than
`bound`. -/
structure Reading (bound : Nat) where
  expr : Expr
  rest : List Token
  shorter : rest.length < bound

mutual

/-- Operands of the next level, joined by the operators of the given one. Above the last level of
binary operators there are unary operators. -/
def readLevel (level : Nat) (tokens : List Token) : Except Failure (Reading tokens.length) :=
  if level < TokenType.operandLevel then
    match readLevel (level + 1) tokens with
    | .error failure => .error failure
    | .ok first =>
      have := first.shorter
      match readMore level first.expr first.rest with
      | .error failure => .error failure
      | .ok whole => .ok ⟨whole.expr, whole.rest, Nat.lt_of_lt_of_le whole.shorter this⟩
  else readUnary tokens
termination_by (tokens.length, 2 + (TokenType.operandLevel - level))

/-- The operators of a level and their right operands, as long as there are any. The expression so
far is the left operand of the next operator. -/
def readMore (level : Nat) (left : Expr) (tokens : List Token) :
    Except Failure (Reading (tokens.length + 1)) :=
  match tokens with
  | [] => .ok ⟨left, [], Nat.one_pos⟩
  | t :: rest =>
    if t.type.level = level then
      match readLevel (level + 1) rest with
      | .error failure => .error failure
      | .ok right =>
        have := right.shorter
        match readMore level (.binary left t right.expr) right.rest with
        | .error failure => .error failure
        | .ok whole =>
          have inside := Nat.lt_of_lt_of_le whole.shorter right.shorter
          .ok ⟨whole.expr, whole.rest, Nat.lt_succ_of_lt (Nat.lt_succ_of_lt inside)⟩
    else .ok ⟨left, t :: rest, Nat.lt_succ_self _⟩
termination_by (tokens.length, 0)

def readUnary (tokens : List Token) : Except Failure (Reading tokens.length) :=
  match tokens with
  | [] => readPrimary []
  | t :: rest =>
    if t.type.isUnary then
      match readLevel TokenType.plus.level rest with
      | .error failure => .error failure
      | .ok operand =>
        .ok ⟨.unary t operand.expr, operand.rest, Nat.lt_succ_of_lt operand.shorter⟩
    else readPrimary (t :: rest)
termination_by (tokens.length, 1)

def readPrimary (tokens : List Token) : Except Failure (Reading tokens.length) :=
  match tokens with
  | [] => .error ⟨.expectedExpression, []⟩
  | t :: rest =>
    match t.value? with
    | some value => .ok ⟨.literal value, rest, Nat.lt_succ_self _⟩
    | none =>
      if t.type = .leftParen then
        match readLevel 1 rest with
        | .error failure => .error failure
        | .ok ⟨_, [], _⟩ => .error ⟨.expectedRightParen, []⟩
        | .ok ⟨inner, closing :: behind, shorter⟩ =>
          if closing.type = .rightParen then
            .ok ⟨.grouping inner, behind, Nat.lt_succ_of_lt (Nat.lt_of_succ_lt shorter)⟩
          else .error ⟨.expectedRightParen, closing :: behind⟩
      else .error ⟨.expectedExpression, t :: rest⟩
termination_by (tokens.length, 0)

end

/-- Reads all tokens as one expression. -/
def descend (tokens : List Token) : Except Failure Expr :=
  match readLevel 1 tokens with
  | .error failure => .error failure
  | .ok ⟨e, [], _⟩ => .ok e
  | .ok ⟨_, t :: rest, _⟩ => .error ⟨.expectedEnd, t :: rest⟩

/-- The level of the operator that comes next; 0 if none does. -/
def nextLevel : List Token → Nat
  | [] => 0
  | t :: _ => t.type.level

theorem nextLevel_lt (tokens : List Token) : nextLevel tokens < TokenType.operandLevel := by
  cases tokens with
  | nil => decide
  | cons t rest => exact t.type.level_lt_operandLevel

/-- A rule of the given level leaves no token behind that it could have read: no operator of its own
level or above, and none that an open operand would take. -/
structure Stops (level limit : Nat) (e : Expr) (rest : List Token) : Prop where
  reaches : level ≤ e.level
  below : nextLevel rest < limit
  closed : e.endsOpen = true → nextLevel rest < TokenType.plus.level

/-- The outcome of the stack of frames is what a rule says: it fails where the rule does, and else
it is that of the tokens behind, with the expression that the rule has read on top of the frames. -/
def Follows (level : Nat) (frames : List Frame) (outcome : Except Failure Expr) {bound : Nat} :
    Except Failure (Reading bound) → Prop
  | .error failure => outcome = .error failure
  | .ok reading =>
    ∃ stack operand, outcome = (State.complete stack operand).run reading.rest ∧
      Amounts stack operand frames reading.expr ∧ Stops level level reading.expr reading.rest

mutual

theorem readLevel_follows (level : Nat) (tokens : List Token) (frames : List Frame)
    (positive : 1 ≤ level) (bounded : level ≤ TokenType.operandLevel)
    (room : need frames ≤ level) :
    Follows level frames ((State.expecting frames).run tokens) (readLevel level tokens) := by
  rw [readLevel]
  split
  next inside =>
    have first := readLevel_follows (level + 1) tokens frames (Nat.succ_pos _) inside
      (Nat.le_succ_of_le room)
    split
    next failure failed =>
      rw [failed] at first
      exact first
    next reading succeeded =>
      rw [succeeded] at first
      obtain ⟨stack, operand, run, amounts, stops⟩ := first
      have fewer := reading.shorter
      have more := readMore_follows level reading.expr reading.rest frames stack operand amounts
        positive inside room ⟨Nat.le_of_succ_le stops.reaches, stops.below, stops.closed⟩
      rw [run]
      split
      next failure failed =>
        rw [failed] at more
        exact more
      next whole succeeded =>
        rw [succeeded] at more
        exact more
  next outside =>
    have last : level = TokenType.operandLevel := Nat.le_antisymm bounded (Nat.not_lt.mp outside)
    rw [last]
    exact readUnary_follows tokens frames
termination_by (tokens.length, 2 + (TokenType.operandLevel - level))

theorem readMore_follows (level : Nat) (left : Expr) (tokens : List Token) (frames : List Frame)
    (stack : List Frame) (operand : Expr) (amounts : Amounts stack operand frames left)
    (positive : 1 ≤ level) (inside : level < TokenType.operandLevel) (room : need frames ≤ level)
    (stops : Stops level (level + 1) left tokens) :
    Follows level frames ((State.complete stack operand).run tokens)
      (readMore level left tokens) := by
  match tokens, stops with
  | [], stops =>
    rw [readMore]
    exact ⟨stack, operand, rfl, amounts, stops.reaches, positive, stops.closed⟩
  | t :: rest, stops =>
    rw [readMore]
    split
    next same =>
      have closed : TokenType.plus.level ≤ level → left.endsOpen = false := by
        intro high
        apply Bool.eq_false_iff.mpr
        intro opened
        have low : t.type.level < TokenType.plus.level := stops.closed opened
        omega
      have joined := amounts.close_eq room stops.reaches closed
      rw [run_binary rest (same ▸ positive), same, joined]
      have right := readLevel_follows (level + 1) rest (.binary left t :: frames)
        (Nat.succ_pos _) inside (Nat.succ_le_succ (Nat.le_of_eq same))
      split
      next failure failed =>
        rw [failed] at right
        exact right
      next reading succeeded =>
        rw [succeeded] at right
        obtain ⟨stack, operand, run, amounts, stops⟩ := right
        have fewer := reading.shorter
        have more := readMore_follows level (.binary left t reading.expr) reading.rest frames stack
          operand (amounts.binary (same ▸ stops.reaches)) positive inside room
          ⟨Nat.le_of_eq same.symm, stops.below, stops.closed⟩
        rw [run]
        split
        next failure failed =>
          rw [failed] at more
          exact more
        next whole succeeded =>
          rw [succeeded] at more
          exact more
    next other =>
      have below : t.type.level < level := by
        have : t.type.level < level + 1 := stops.below
        omega
      exact ⟨stack, operand, rfl, amounts, stops.reaches, below, stops.closed⟩
termination_by (tokens.length, 0)

theorem readUnary_follows (tokens : List Token) (frames : List Frame) :
    Follows TokenType.operandLevel frames ((State.expecting frames).run tokens)
      (readUnary tokens) := by
  cases tokens with
  | nil =>
    rw [readUnary]
    exact readPrimary_follows [] frames (by simp)
  | cons t rest =>
    rw [readUnary]
    split
    next isUnary =>
      rw [run_unary rest isUnary]
      have sum := readLevel_follows TokenType.plus.level rest (.unary t :: frames) (by decide)
        (by decide) (Nat.le_refl _)
      split
      next failure failed =>
        rw [failed] at sum
        exact sum
      next reading succeeded =>
        rw [succeeded] at sum
        obtain ⟨stack, operand, run, amounts, stops⟩ := sum
        exact ⟨stack, operand, run, amounts.unary stops.reaches, Nat.le_refl _,
          Nat.lt_trans stops.below (by decide), fun _ => stops.below⟩
    next other =>
      exact readPrimary_follows (t :: rest) frames (by simpa using other)
termination_by (tokens.length, 1)

theorem readPrimary_follows (tokens : List Token) (frames : List Frame)
    (other : ∀ t, tokens.head? = some t → t.type.isUnary = false) :
    Follows TokenType.operandLevel frames ((State.expecting frames).run tokens)
      (readPrimary tokens) := by
  match tokens, other with
  | [], _ =>
    rw [readPrimary]
    exact rfl
  | t :: rest, other =>
    rw [readPrimary]
    split
    next value found =>
      have stands := (t.value?_eq_some_iff value).mp found
      exact ⟨frames, .literal value, run_value rest stands, .refl frames _, Nat.le_refl _,
        nextLevel_lt rest, fun opened => nomatch opened⟩
    next noValue =>
      split
      next opens =>
        have inside := readLevel_follows 1 rest (.group :: frames) (Nat.le_refl _) (by decide)
          (Nat.le_refl _)
        rw [run_leftParen rest opens]
        split
        next failure failed =>
          rw [failed] at inside
          exact inside
        next e shorter succeeded =>
          rw [succeeded] at inside
          obtain ⟨stack, operand, run, amounts, stops⟩ := inside
          exact run.trans (run_nil_unclosed amounts.close_zero_group)
        next e closing behind shorter succeeded =>
          rw [succeeded] at inside
          obtain ⟨stack, operand, run, amounts, stops⟩ := inside
          have whole := amounts.close_zero_group
          rw [run]
          split
          next closes =>
            exact ⟨frames, .grouping e, run_rightParen behind closes whole, .refl frames _,
              Nat.le_refl _, nextLevel_lt behind, fun opened => nomatch opened⟩
          next noParen =>
            exact run_unclosed behind (Nat.lt_one_iff.mp stops.below) noParen whole
      next noParen =>
        exact run_noOperand rest (other t rfl) noParen noValue
termination_by (tokens.length, 0)

end

/-- The stack of frames reads what the descent reads, and fails where it fails. -/
theorem descend_eq_run (tokens : List Token) : descend tokens = State.start.run tokens := by
  have follows := readLevel_follows 1 tokens [] (Nat.le_refl _) (by decide) (Nat.le_refl _)
  rw [descend, State.start]
  split
  next failure failed =>
    rw [failed] at follows
    exact follows.symm
  next e shorter succeeded =>
    rw [succeeded] at follows
    obtain ⟨stack, operand, run, amounts, stops⟩ := follows
    rw [run]
    exact ((run_nil_eq_ok_iff stack operand e).mpr amounts.close_zero_nil).symm
  next e t rest shorter succeeded =>
    rw [succeeded] at follows
    obtain ⟨stack, operand, run, amounts, stops⟩ := follows
    rw [run]
    exact (run_trailing rest (Nat.lt_one_iff.mp stops.below) amounts.close_zero_nil).symm

/-- What an attempt reports if the pending tokens are read by recursive descent. -/
def outcomeOfDescent (p : Parser) : Except SyntaxError Expr :=
  match descend p.pending with
  | .ok e => .ok e
  | .error failure => .error ⟨failure.fault, (p.moveTo failure.rest).current⟩

theorem parse_eq_outcomeOfDescent (p : Parser) : p.parse.1 = p.outcomeOfDescent := by
  rw [parse, outcomeOfDescent, descend_eq_run]
  cases State.start.run p.pending <;> rfl

end Lox.Parser
