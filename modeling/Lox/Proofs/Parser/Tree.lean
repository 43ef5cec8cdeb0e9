import Lox.Proofs.Parser.Position
import Lox.Proofs.Parser.Stack

set_option autoImplicit false

namespace Lox.Parser

/-- The frames were read from the tokens, and each fits into the one below it. -/
inductive Reads : List Frame → List Token → Prop
  | nil : Reads [] []
  | group {frames : List Frame} {word : List Token} {opening : Token} (below : Reads frames word)
    (opens : opening.type = .leftParen) : Reads (.group :: frames) (word ++ [opening])
  | unary {frames : List Frame} {word : List Token} {operator : Token} (below : Reads frames word)
    (isUnary : operator.type.isUnary = true) :
    Reads (.unary operator :: frames) (word ++ [operator])
  | binary {frames : List Frame} {word spelling : List Token} {left : Expr} {operator : Token}
    (below : Reads frames word) (spelled : left.Spells spelling) (formed : left.WellFormed)
    (isBinary : 1 ≤ operator.type.level) (fits : need frames ≤ operator.type.level)
    (reaches : operator.type.level ≤ left.level)
    (closed : TokenType.plus.level ≤ operator.type.level → left.endsOpen = false) :
    Reads (.binary left operator :: frames) (word ++ (spelling ++ [operator]))

/-- The frames and the operand on top of them were read from the tokens. -/
structure Holds (frames : List Frame) (operand : Expr) (word : List Token) : Prop where
  split : ∃ below spelling, word = below ++ spelling ∧ Reads frames below ∧ operand.Spells spelling
  formed : operand.WellFormed
  fits : need frames ≤ operand.level

/-- What the tokens read so far amount to, as `State` tells it. A complete operand is one that no
operator can break up. -/
def State.Holds (word : List Token) : State → Prop
  | expecting frames => Reads frames word
  | complete frames operand =>
    Parser.Holds frames operand word ∧ operand.level = TokenType.operandLevel ∧
      operand.endsOpen = false

namespace Holds

variable {frames : List Frame} {left operand : Expr} {operator : Token} {word : List Token}

theorem join_unary (holds : Holds (.unary operator :: frames) operand word) :
    Holds frames (.unary operator operand) word := by
  obtain ⟨⟨below, spelling, rfl, reads, spelled⟩, formed, fits⟩ := holds
  cases reads with
  | unary below isUnary =>
    have listed := (TokenType.isUnary_iff _).mp isUnary
    refine ⟨⟨_, operator :: spelling, ?_, below, .unary spelled⟩, ⟨listed, fits, formed⟩,
      need_le_operandLevel frames⟩
    simp only [List.append_assoc, List.singleton_append]

theorem join_binary (holds : Holds (.binary left operator :: frames) operand word) :
    Holds frames (.binary left operator operand) word := by
  obtain ⟨⟨below, spelling, rfl, reads, spelled⟩, formed, fits⟩ := holds
  cases reads with
  | @binary _ _ before _ _ below leftSpelled leftFormed isBinary room reaches closed =>
    refine ⟨⟨_, before ++ operator :: spelling, ?_, below, .binary leftSpelled spelled⟩,
      ⟨isBinary, reaches, fits, closed, leftFormed, formed⟩, room⟩
    simp only [List.append_assoc, List.singleton_append]

theorem join_group {inner : Expr} {closing : Token} (holds : Holds (.group :: frames) inner word)
    (closes : closing.type = .rightParen) :
    Holds frames (.grouping inner) (word ++ [closing]) := by
  obtain ⟨⟨below, spelling, rfl, reads, spelled⟩, formed, fits⟩ := holds
  cases reads with
  | @group _ _ opening below opens =>
    refine ⟨⟨_, opening :: (spelling ++ [closing]), ?_, below, .grouping opens spelled closes⟩,
      formed, need_le_operandLevel frames⟩
    simp only [List.append_assoc, List.cons_append, List.nil_append]

theorem of_nil (holds : Holds [] operand word) : operand.WellFormed ∧ operand.Spells word := by
  obtain ⟨⟨below, spelling, rfl, reads, spelled⟩, formed, fits⟩ := holds
  cases reads with
  | nil => exact ⟨formed, spelled⟩

/-- Closing a level keeps what was read, and the new operand reaches that level as the old one
did. -/
theorem close {level : Nat} (holds : Holds frames operand word)
    (reaches : level ≤ operand.level)
    (closed : TokenType.plus.level ≤ level → operand.endsOpen = false) :
    Holds (close level frames operand).1 (close level frames operand).2 word ∧
      level ≤ (Parser.close level frames operand).2.level ∧
      (TokenType.plus.level ≤ level →
        (Parser.close level frames operand).2.endsOpen = false) := by
  induction frames generalizing operand with
  | nil => exact ⟨holds, reaches, closed⟩
  | cons frame frames ih =>
    cases frame with
    | group => exact ⟨holds, reaches, closed⟩
    | unary operator =>
      rw [Parser.close]
      split
      next low =>
        refine ih holds.join_unary ?_ ?_
        · exact Nat.le_of_lt (Nat.lt_trans low (by decide : TokenType.plus.level < 5))
        · exact fun high => absurd low (Nat.not_lt.mpr high)
      next => exact ⟨holds, reaches, closed⟩
    | binary left operator =>
      rw [Parser.close]
      split
      next low => exact ih holds.join_binary low closed
      next => exact ⟨holds, reaches, closed⟩

end Holds

theorem State.Holds.step {s later : State} {word : List Token} {t : Token} (holds : s.Holds word)
    (stepped : s.step t = .ok later) : later.Holds (word ++ [t]) := by
  cases s with
  | expecting frames =>
    simp only [State.step] at stepped
    split at stepped
    next isUnary =>
      obtain rfl := Except.ok.inj stepped
      exact .unary holds isUnary
    next =>
      split at stepped
      next opens =>
        obtain rfl := Except.ok.inj stepped
        exact .group holds opens
      next =>
        split at stepped
        next value found =>
          obtain rfl := Except.ok.inj stepped
          have stands := (t.value?_eq_some_iff value).mp found
          exact ⟨⟨⟨word, [t], rfl, holds, .literal stands⟩, trivial, need_le_operandLevel frames⟩,
            rfl, rfl⟩
        next => cases stepped
  | complete frames operand =>
    obtain ⟨top, atomic, closed⟩ := holds
    simp only [State.step] at stepped
    split at stepped
    next isBinary =>
      obtain rfl := Except.ok.inj stepped
      have reaches : t.type.level ≤ operand.level := by
        have := t.type.level_lt_operandLevel
        omega
      obtain ⟨joined, reaches, closed⟩ := top.close reaches (fun _ => closed)
      obtain ⟨below, spelling, split, reads, spelled⟩ := joined.split
      rw [split, List.append_assoc]
      exact .binary reads spelled joined.formed isBinary (need_close_le isBinary frames operand)
        reaches closed
    next =>
      have joined := (top.close (Nat.zero_le _) (fun _ => closed)).1
      split at stepped
      next below inner shape =>
        rw [shape] at joined
        split at stepped
        next closes =>
          obtain rfl := Except.ok.inj stepped
          exact ⟨joined.join_group closes, rfl, rfl⟩
        next => cases stepped
      next => cases stepped

/-- A tree that is read off the tokens is well-formed and spelled by all of them. -/
theorem State.Holds.run {s : State} {word tokens : List Token} {e : Expr} (holds : s.Holds word)
    (read : s.run tokens = .ok e) : e.WellFormed ∧ e.Spells (word ++ tokens) := by
  induction tokens generalizing s word with
  | nil =>
    rw [List.append_nil]
    cases s with
    | expecting frames => cases read
    | complete frames operand =>
      obtain ⟨top, _, closed⟩ := holds
      have joined := (top.close (Nat.zero_le _) (fun _ => closed)).1
      rw [(run_nil_eq_ok_iff frames operand e).mp read] at joined
      exact joined.of_nil
  | cons t rest ih =>
    rw [State.run] at read
    split at read
    next later stepped =>
      have spelled := ih (holds.step stepped) read
      rwa [List.append_assoc] at spelled
    next => cases read

/-- Behind the spelling of a tree the stack amounts to the tree. -/
theorem run_spelling {e : Expr} {word : List Token} (spelled : e.Spells word)
    (formed : e.WellFormed) (frames : List Frame) (room : need frames ≤ e.level)
    (rest : List Token) :
    ∃ stack operand,
      (State.expecting frames).run (word ++ rest) = (State.complete stack operand).run rest ∧
        Amounts stack operand frames e := by
  induction spelled generalizing frames rest with
  | @literal t value stands =>
    exact ⟨frames, .literal value, run_value rest stands, .refl frames _⟩
  | @grouping opening closing inner word opens spelled closes ih =>
    obtain ⟨stack, operand, run, amounts⟩ :=
      ih formed (.group :: frames) (Expr.WellFormed.one_le_level formed) (closing :: rest)
    refine ⟨frames, .grouping inner, ?_, .refl frames _⟩
    rw [List.cons_append, run_leftParen _ opens, List.append_assoc, List.singleton_append, run,
      run_rightParen rest closes amounts.close_zero_group]
  | @unary operator operand word spelled ih =>
    obtain ⟨listed, reaches, formed⟩ := formed
    have isUnary := (TokenType.isUnary_iff _).mpr listed
    obtain ⟨stack, last, run, amounts⟩ := ih formed (.unary operator :: frames) reaches rest
    exact ⟨stack, last, by rw [List.cons_append, run_unary _ isUnary, run],
      amounts.unary reaches⟩
  | @binary operator left right first second before behind ihl ihr =>
    obtain ⟨isBinary, leftReaches, rightReaches, leftClosed, leftFormed, rightFormed⟩ := formed
    have room : need frames ≤ operator.type.level := room
    obtain ⟨leftStack, leftLast, leftRun, leftAmounts⟩ :=
      ihl leftFormed frames (Nat.le_trans room leftReaches) (operator :: (second ++ rest))
    have joined := leftAmounts.close_eq room leftReaches leftClosed
    obtain ⟨stack, last, run, amounts⟩ :=
      ihr rightFormed (.binary left operator :: frames) rightReaches rest
    refine ⟨stack, last, ?_, amounts.binary rightReaches⟩
    rw [List.append_assoc, List.cons_append, leftRun, run_binary _ isBinary, joined, run]

theorem run_start_eq_ok_iff (word : List Token) (e : Expr) :
    State.start.run word = .ok e ↔ e.WellFormed ∧ e.Spells word := by
  constructor
  · intro read
    have start : State.start.Holds [] := .nil
    exact start.run read
  · rintro ⟨formed, spelled⟩
    obtain ⟨stack, operand, run, amounts⟩ := run_spelling spelled formed [] formed.one_le_level []
    rw [List.append_nil] at run
    exact run.trans ((run_nil_eq_ok_iff _ _ e).mpr amounts.close_zero_nil)

/-- The sentence of a token list is read as a tree exactly when the tree is well-formed and spelled
by that sentence. -/
theorem parse_eq_ok_iff (tokens : List Token) (e : Expr) :
    (ofTokens tokens).parse.1 = .ok e ↔ e.WellFormed ∧ e.Spells (properTokens tokens) := by
  rw [parse_eq_ok_iff_run, ← properTokens_eq, run_start_eq_ok_iff]

end Lox.Parser
