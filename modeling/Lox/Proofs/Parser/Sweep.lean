import Lox.Proofs.Parser.Descent
import Lox.Proofs.Parser.Position

set_option autoImplicit false

namespace Lox

/-- What a sweep knows of the tokens it has passed. -/
inductive Sweep where
  | expecting (depth : Nat)
  | complete (depth : Nat)
deriving DecidableEq

namespace Sweep

inductive Move where
  | on (later : Sweep)
  | accept
  | fault (message : String)
deriving DecidableEq

def move (t : Token) : Sweep → Move
  | expecting depth =>
    match t.type, t.literal with
    | .bang, _ | .minus, _ => .on (expecting depth)
    | .leftParen, _ => .on (expecting (depth + 1))
    | .kwTrue, _ | .kwFalse, _ | .kwNil, _ => .on (complete depth)
    | .number, some (.number _) => .on (complete depth)
    | .string, some (.string _) => .on (complete depth)
    | _, _ => .fault "Expect expression."
  | complete depth =>
    match t.type, depth with
    | .equalEqual, _ | .bangEqual, _ | .greater, _ | .greaterEqual, _ | .less, _
    | .lessEqual, _ | .plus, _ | .minus, _ | .star, _ | .slash, _ => .on (expecting depth)
    | .rightParen, below + 1 => .on (complete below)
    | _, _ + 1 => .fault "Expect ')' after expression"
    | .endOfInput, 0 => .accept
    | _, 0 => .fault "Expect end of expression."

/-- How a sweep ends: it finds an expression, or a fault at a token. -/
inductive Verdict where
  | accepted
  | rejected (offending : Token) (diagnostic : Diagnostic)
deriving DecidableEq

/-- The verdict on a list of tokens; `none` if the list is used up before there is one. -/
def verdict : Sweep → List Token → Option Verdict
  | _, [] => none
  | s, t :: rest =>
    match s.move t with
    | .on later => later.verdict rest
    | .accept => some .accepted
    | .fault message => some (.rejected t (t.diagnostic message))

def start : Sweep :=
  expecting 0

/-- What the outcome of an attempt to parse says about acceptance, without the tree. -/
def Verdict.ofOutcome : Except SyntaxError Expr → Verdict
  | .ok _ => accepted
  | .error e => rejected e.token e.diagnostic

/-- Where a sweep is behind some tokens; `none` if it comes to a verdict before. -/
def pass : Sweep → List Token → Option Sweep
  | s, [] => some s
  | s, t :: rest =>
    match s.move t with
    | .on later => later.pass rest
    | _ => none

theorem pass_append (s : Sweep) (first second : List Token) :
    s.pass (first ++ second) = (s.pass first).bind (·.pass second) := by
  induction first generalizing s with
  | nil => rfl
  | cons t rest ih =>
    rw [List.cons_append, pass, pass]
    cases s.move t with
    | on later => exact ih later
    | accept => rfl
    | fault message => rfl

theorem ne_endOfInput_of_move {s later : Sweep} {t : Token} (moved : s.move t = .on later) :
    t.type ≠ .endOfInput := by
  intro ends
  cases s with
  | expecting depth => simp only [move, ends, reduceCtorEq] at moved
  | complete depth => cases depth <;> simp only [move, ends, reduceCtorEq] at moved

theorem move_binary {t : Token} (isBinary : 1 ≤ t.type.level) (depth : Nat) :
    (complete depth).move t = .on (expecting depth) := by
  obtain ⟨type, lexeme, literal, line⟩ := t
  cases type <;> simp_all [move, TokenType.level]

theorem move_inside {t : Token} (noOperator : t.type.level = 0) (below : Nat) :
    (complete (below + 1)).move t =
      if t.type = .rightParen then .on (complete below)
      else .fault "Expect ')' after expression" := by
  obtain ⟨type, lexeme, literal, line⟩ := t
  cases type <;> simp_all [move, TokenType.level]

theorem move_outside {t : Token} (noOperator : t.type.level = 0) :
    (complete 0).move t =
      if t.type = .endOfInput then .accept else .fault "Expect end of expression." := by
  obtain ⟨type, lexeme, literal, line⟩ := t
  cases type <;> simp_all [move, TokenType.level]

end Sweep

namespace Parser

/-- The number of open parentheses. -/
def depth : List Frame → Nat
  | [] => 0
  | .group :: frames => depth frames + 1
  | .unary _ :: frames | .binary _ _ :: frames => depth frames

/-- What a sweep knows when a parser is in the given state. -/
def State.sweep : State → Sweep
  | expecting frames => .expecting (depth frames)
  | complete frames _ => .complete (depth frames)

theorem depth_close (level : Nat) (frames : List Frame) (operand : Expr) :
    depth (close level frames operand).1 = depth frames := by
  induction frames generalizing operand with
  | nil => rfl
  | cons frame frames ih =>
    cases frame with
    | group => rfl
    | unary operator =>
      rw [close]
      split
      · exact ih _
      · rfl
    | binary left operator =>
      rw [close]
      split
      · exact ih _
      · rfl

/-- A sweep moves on as a parser does that expects an operand, and finds the same faults. -/
theorem move_sweep_expecting (t : Token) (frames : List Frame) :
    (State.expecting frames).sweep.move t =
      match (State.expecting frames).step t with
      | .ok later => .on later.sweep
      | .error fault => .fault fault.message := by
  obtain ⟨type, lexeme, literal, line⟩ := t
  cases type with
  | number => rcases literal with _ | ⟨n⟩ | ⟨s⟩ <;> rfl
  | string => rcases literal with _ | ⟨n⟩ | ⟨s⟩ <;> rfl
  | _ => rfl

/-- The same for a parser with a complete operand. It never sees an end-of-input token. -/
theorem move_sweep_complete {t : Token} (running : t.type ≠ .endOfInput) (frames : List Frame)
    (operand : Expr) :
    (State.complete frames operand).sweep.move t =
      match (State.complete frames operand).step t with
      | .ok later => .on later.sweep
      | .error fault => .fault fault.message := by
  rw [State.sweep]
  by_cases isBinary : 1 ≤ t.type.level
  · rw [Sweep.move_binary isBinary, State.step, if_pos (show 0 < t.type.level from isBinary)]
    simp only [State.sweep, depth, depth_close]
  · have noOperator : t.type.level = 0 := by omega
    rw [← depth_close 0 frames operand, State.step, noOperator, if_neg (Nat.lt_irrefl 0)]
    have shape := close_zero frames operand
    generalize close 0 frames operand = closed at shape ⊢
    obtain ⟨left, inner⟩ := closed
    rcases shape with rfl | ⟨below, rfl⟩
    · rw [depth, Sweep.move_outside noOperator, if_neg running]
      rfl
    · rw [depth, Sweep.move_inside noOperator]
      by_cases closes : t.type = .rightParen
      · simp only [closes, ↓reduceIte, State.sweep]
      · simp only [closes, ↓reduceIte, Fault.message]

theorem move_sweep {t : Token} (running : t.type ≠ .endOfInput) (s : State) :
    s.sweep.move t =
      match s.step t with
      | .ok later => .on later.sweep
      | .error fault => .fault fault.message := by
  cases s with
  | expecting frames => exact move_sweep_expecting t frames
  | complete frames operand => exact move_sweep_complete running frames operand

theorem move_sweep_ending {ending : Token} (ends : ending.type = .endOfInput) (s : State) :
    s.sweep.move ending =
      match s.finish with
      | .ok _ => .accept
      | .error fault => .fault fault.message := by
  have noOperator : ending.type.level = 0 := by rw [ends]; rfl
  cases s with
  | expecting frames => simp only [State.sweep, Sweep.move, ends, State.finish, Fault.message]
  | complete frames operand =>
    rw [State.sweep, ← depth_close 0 frames operand, State.finish]
    have shape := close_zero frames operand
    generalize close 0 frames operand = closed at shape ⊢
    obtain ⟨left, inner⟩ := closed
    rcases shape with rfl | ⟨below, rfl⟩
    · rw [depth, Sweep.move_outside noOperator, if_pos ends]
    · rw [depth, Sweep.move_inside noOperator, ends]
      rfl

/-- A parser gets as far as a sweep does. -/
theorem run_of_pass {tokens : List Token} {s : State} {last : Sweep}
    (passed : s.sweep.pass tokens = some last) :
    ∃ later : State, later.sweep = last ∧
      ∀ rest, s.run (tokens ++ rest) = later.run rest := by
  induction tokens generalizing s with
  | nil => exact ⟨s, Option.some.inj passed, fun _ => rfl⟩
  | cons t tokens ih =>
    rw [Sweep.pass] at passed
    split at passed
    next moved on =>
      rw [move_sweep (Sweep.ne_endOfInput_of_move on)] at on
      split at on
      next next stepped =>
        obtain rfl := Sweep.Move.on.inj on
        obtain ⟨later, same, run⟩ := ih passed
        refine ⟨later, same, fun rest => ?_⟩
        rw [List.cons_append, State.run, stepped]
        exact run rest
      next => cases on
    next => cases passed

theorem run_nil_of_sweep {s : State} (closed : s.sweep = .complete 0) :
    ∃ e, s.run [] = .ok e := by
  cases s with
  | expecting frames => cases closed
  | complete frames operand =>
    have outside : depth frames = 0 := Sweep.complete.inj closed
    rw [← depth_close 0 frames operand] at outside
    rcases close_zero frames operand with empty | ⟨below, group⟩
    · exact ⟨_, (run_nil_eq_ok_iff frames operand _).mpr (Prod.ext empty rfl)⟩
    · rw [group] at outside
      cases outside

/-- The verdict of a sweep over the pending tokens and the end of input, in terms of a parser's
run. -/
theorem verdict_sweep {ending : Token} (ends : ending.type = .endOfInput) (behind : List Token)
    {pending : List Token} (running : ∀ t ∈ pending, t.type ≠ .endOfInput) (s : State) :
    s.sweep.verdict (pending ++ ending :: behind) =
      match s.run pending with
      | .ok _ => some .accepted
      | .error failure =>
        some (.rejected (failure.rest.head?.getD ending)
          ((failure.rest.head?.getD ending).diagnostic failure.fault.message)) := by
  induction pending generalizing s with
  | nil =>
    rw [List.nil_append, Sweep.verdict, move_sweep_ending ends, State.run]
    cases s.finish <;> rfl
  | cons t rest ih =>
    have first : t.type ≠ .endOfInput := running t (List.mem_cons_self ..)
    have others : ∀ t ∈ rest, t.type ≠ .endOfInput :=
      fun t member => running t (List.mem_cons_of_mem _ member)
    rw [List.cons_append, Sweep.verdict, move_sweep first, State.run]
    cases s.step t with
    | ok later => exact ih others later
    | error fault => rfl

theorem ofOutcome_parse (p : Parser) :
    Sweep.Verdict.ofOutcome p.parse.1 =
      match State.start.run p.pending with
      | .ok _ => .accepted
      | .error failure =>
        .rejected (failure.rest.head?.getD p.ending)
          ((failure.rest.head?.getD p.ending).diagnostic failure.fault.message) := by
  rw [parse]
  cases State.start.run p.pending <;> rfl

/-- Every attempt of a parser, wherever earlier attempts have left it, is a descent through the
rules of the grammar and has the outcome of a flat sweep from the current token on. -/
theorem parse_agrees_with_sweep (tokens : List Token) (calls : Nat) :
    let p := (ofTokens tokens).after calls
    p.parse.1 = p.outcomeOfDescent ∧
      Sweep.start.verdict ((completed tokens).drop p.position) =
        some (Sweep.Verdict.ofOutcome p.parse.1) := by
  intro p
  have stands := (standsIn_ofTokens tokens).after calls
  obtain ⟨behind, ahead⟩ := stands.ahead
  refine ⟨p.parse_eq_outcomeOfDescent, ?_⟩
  have swept := verdict_sweep stands.ends behind stands.running State.start
  rw [ahead, ofOutcome_parse]
  refine swept.trans ?_
  cases State.start.run p.pending <;> rfl

end Parser

end Lox
