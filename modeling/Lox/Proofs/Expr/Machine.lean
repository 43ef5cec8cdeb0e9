import Lox.Expr.Evaluation
import Lox.Expr.Postorder

set_option autoImplicit false

namespace Lox.Machine

inductive Halt where
  /-- There are fewer values on the stack than the node takes. -/
  | underflow
  /-- The rule of the operator gives no value for these operands. -/
  | refused (operator : Token) (fault : RuntimeFault)
deriving DecidableEq

/-- Puts what the rule of an operator gives on the stack. -/
def deliver (operator : Token) (stack : List Value) :
    Except RuntimeFault Value → Except Halt (List Value)
  | .ok value => .ok (value :: stack)
  | .error fault => .error (.refused operator fault)

/-- Runs one node. The last value of the stack comes first, so a right operand stands in front of
the left one. -/
def step : Node → List Value → Except Halt (List Value)
  | .literal value, stack => .ok (value :: stack)
  | .grouping, stack => .ok stack
  | .unary operator, operand :: stack =>
    deliver operator stack (operand.unary operator.type)
  | .binary operator, right :: left :: stack =>
    deliver operator stack (left.binary operator.type right)
  | _, _ => .error .underflow

/-- A halt and the nodes that have not been run, the first of which caused it. -/
structure Stop where
  halt : Halt
  rest : List Node
deriving DecidableEq

/-- Runs nodes from left to right and leaves a stack. -/
def run : List Node → List Value → Except Stop (List Value)
  | [], stack => .ok stack
  | node :: rest, stack =>
    match step node stack with
    | .ok later => run rest later
    | .error halt => .error ⟨halt, node :: rest⟩

section Run

variable {nodes front : List Node} {node : Node} {stack later : List Value}
  {operator refusing : Token} {fault : RuntimeFault} {error : RuntimeError}

theorem run_append (ran : run front stack = .ok later) (rest : List Node) :
    run (front ++ rest) stack = run rest later := by
  induction front generalizing stack with
  | nil =>
    obtain rfl := Except.ok.inj ran
    rfl
  | cons node front ih =>
    rw [run] at ran
    rw [List.cons_append, run]
    split at ran
    next next stepped => exact ih ran
    next => cases ran

theorem exists_run_of_append {last : List Value}
    (ran : run (front ++ nodes) stack = .ok last) :
    ∃ reached, run front stack = .ok reached ∧ run nodes reached = .ok last := by
  induction front generalizing stack with
  | nil => exact ⟨stack, rfl, ran⟩
  | cons node front ih =>
    rw [List.cons_append, run] at ran
    split at ran
    next later stepped =>
      obtain ⟨reached, ranFront, ranOn⟩ := ih ran
      refine ⟨reached, ?_, ranOn⟩
      rw [run, stepped]
      exact ranFront
    next => cases ran

theorem run_cons_of_error {halt : Halt} (stuck : step node stack = .error halt)
    (rest : List Node) : run (node :: rest) stack = .error ⟨halt, node :: rest⟩ := by
  rw [run, stuck]

theorem eq_of_deliver_refused {outcome : Except RuntimeFault Value}
    (refused : deliver operator stack outcome = .error (.refused refusing fault)) :
    operator = refusing := by
  cases outcome with
  | ok value => cases refused
  | error found =>
    cases refused
    rfl

/-- Only an operator refuses its operands. -/
theorem eq_operator_of_refused (refused : step node stack = .error (.refused operator fault)) :
    node = .unary operator ∨ node = .binary operator := by
  unfold step at refused
  split at refused
  case h_1 => cases refused
  case h_2 => cases refused
  case h_3 own operand stack => exact .inl (eq_of_deliver_refused refused ▸ rfl)
  case h_4 own right left stack => exact .inr (eq_of_deliver_refused refused ▸ rfl)
  case h_5 => cases refused

/-- The nodes get the machine to an operator that refuses its operands, and the error says which
operator that is and why. -/
inductive Breaks (nodes : List Node) (stack : List Value) : RuntimeError → Prop
  | intro (before : List Node) {node : Node} (behind : List Node) {reached : List Value}
    {operator : Token} {fault : RuntimeFault} (split : nodes = before ++ node :: behind)
    (ran : run before stack = .ok reached)
    (refused : step node reached = .error (.refused operator fault)) :
    Breaks nodes stack ⟨fault, operator.lexeme, operator.line⟩

theorem Breaks.append_right (breaks : Breaks nodes stack error) (more : List Node) :
    Breaks (nodes ++ more) stack error := by
  obtain ⟨before, behind, split, ran, refused⟩ := breaks
  refine .intro before (behind ++ more) ?_ ran refused
  rw [split, List.append_assoc, List.cons_append]

theorem Breaks.append_left (breaks : Breaks nodes later error) (ran : run front stack = .ok later) :
    Breaks (front ++ nodes) stack error := by
  obtain ⟨before, behind, split, ranOn, refused⟩ := breaks
  refine .intro (front ++ before) behind ?_ ((run_append ran before).trans ranOn) refused
  rw [split, List.append_assoc]

/-- Started on one stack, the nodes come to the outcome of an evaluation: its value on top of
another stack, or an operator that gives its error. -/
inductive Yields (nodes : List Node) (start base : List Value) : Except RuntimeError Value → Prop
  | value {value : Value} (ran : run nodes start = .ok (value :: base)) :
    Yields nodes start base (.ok value)
  | error {error : RuntimeError} (breaks : Breaks nodes start error) :
    Yields nodes start base (.error error)

/-- Evaluations one after the other are runs one after the other. -/
theorem Yields.bind {start base final : List Value} {outcome : Except RuntimeError Value}
    {continuation : Value → Except RuntimeError Value} (first : Yields front start base outcome)
    (next : ∀ value, Yields nodes (value :: base) final (continuation value)) :
    Yields (front ++ nodes) start final (outcome.bind continuation) := by
  cases first with
  | error breaks => exact .error (breaks.append_right nodes)
  | @value value ran =>
    have second := next value
    rw [Except.bind]
    generalize continuation value = result at second
    cases second with
    | value ranOn => exact .value ((run_append ran nodes).trans ranOn)
    | error breaks => exact .error (breaks.append_left ran)

theorem yields_of_step {outcome : Except RuntimeFault Value}
    (rule : step node stack = deliver operator later outcome) :
    Yields [node] stack later (operator.applied outcome) := by
  cases outcome with
  | ok value =>
    refine .value ?_
    rw [run, rule]
    rfl
  | error fault => exact .error (.intro [] [] rfl rfl rule)

end Run

/-- The nodes of a tree come to what evaluation of the tree comes to, on every stack. -/
theorem yields_postorder (e : Expr) (stack : List Value) :
    Yields e.postorder stack stack e.evaluate := by
  induction e generalizing stack with
  | literal value => exact .value rfl
  | grouping inner ih =>
    have nothingMore : inner.evaluate.bind .ok = inner.evaluate := by
      cases inner.evaluate <;> rfl
    rw [Expr.postorder, Expr.evaluate, ← nothingMore]
    exact (ih stack).bind fun _ => .value rfl
  | unary operator operand ih =>
    exact (ih stack).bind fun _ => yields_of_step rfl
  | binary left operator right ihl ihr =>
    rw [Expr.postorder, List.append_assoc]
    exact (ihl stack).bind fun a => (ihr (a :: stack)).bind fun _ => yields_of_step rfl

theorem run_postorder {e : Expr} {value : Value} (valued : e.evaluate = .ok value) :
    run e.postorder [] = .ok [value] := by
  have yielded := yields_postorder e []
  rw [valued] at yielded
  cases yielded with
  | value ran => exact ran

theorem breaks_postorder {e : Expr} {error : RuntimeError} (failed : e.evaluate = .error error) :
    Breaks e.postorder [] error := by
  have yielded := yields_postorder e []
  rw [failed] at yielded
  cases yielded with
  | error breaks => exact breaks

theorem exists_stop_of_evaluate {e : Expr} {error : RuntimeError}
    (failed : e.evaluate = .error error) :
    ∃ before node behind operator fault,
      e.postorder = before ++ node :: behind ∧
        (node = .unary operator ∨ node = .binary operator) ∧
        (∀ rest, run (before ++ node :: rest) [] = .error ⟨.refused operator fault, node :: rest⟩) ∧
        error = ⟨fault, operator.lexeme, operator.line⟩ := by
  obtain ⟨before, behind, split, ran, refused⟩ := breaks_postorder failed
  refine ⟨before, _, behind, _, _, split, eq_operator_of_refused refused, fun rest => ?_, rfl⟩
  rw [run_append ran, run_cons_of_error refused]

/-- Whatever breaks the run over the nodes of a tree is the error of the tree. -/
theorem evaluate_of_run_refused {e : Expr} {operator : Token} {fault : RuntimeFault}
    {rest : List Node} (stopped : run e.postorder [] = .error ⟨.refused operator fault, rest⟩) :
    e.evaluate = .error ⟨fault, operator.lexeme, operator.line⟩ := by
  cases evaluated : e.evaluate with
  | ok value =>
    rw [run_postorder evaluated] at stopped
    cases stopped
  | error error =>
    obtain ⟨before, node, behind, _, _, split, _, stops, rfl⟩ := exists_stop_of_evaluate evaluated
    rw [split, stops] at stopped
    cases stopped
    rfl

/-- The run over the nodes of a tree never lacks operands. If it gets through, it leaves one value,
which is that of the tree. If it stops, it does so at an operator, the error of the tree is what the
rule of that operator says, and all trees whose nodes begin with the same ones up to there have the
same error. -/
theorem evaluate_agrees_with_run (e : Expr) :
    (∀ rest, run e.postorder [] ≠ .error ⟨.underflow, rest⟩) ∧
      ((∃ value, run e.postorder [] = .ok [value] ∧ e.evaluate = .ok value) ∨
        ∃ before node behind operator fault,
          e.postorder = before ++ node :: behind ∧
            (node = .unary operator ∨ node = .binary operator) ∧
            run e.postorder [] = .error ⟨.refused operator fault, node :: behind⟩ ∧
            e.evaluate = .error ⟨fault, operator.lexeme, operator.line⟩ ∧
            ∀ other : Expr, before ++ [node] <+: other.postorder →
              other.evaluate = e.evaluate) := by
  cases evaluated : e.evaluate with
  | ok value =>
    have ran := run_postorder evaluated
    refine ⟨fun rest underflow => ?_, .inl ⟨value, ran, rfl⟩⟩
    rw [ran] at underflow
    cases underflow
  | error error =>
    obtain ⟨before, node, behind, operator, fault, split, isOperator, stops, rfl⟩ :=
      exists_stop_of_evaluate evaluated
    have stopped := stops behind
    rw [← split] at stopped
    refine ⟨fun rest underflow => ?_, .inr ⟨before, node, behind, operator, fault, split,
      isOperator, stopped, rfl, fun other begins => ?_⟩⟩
    · rw [stopped] at underflow
      cases underflow
    · obtain ⟨more, whole⟩ := begins
      apply evaluate_of_run_refused
      rw [← whole, List.append_assoc, List.singleton_append]
      exact stops more

end Lox.Machine
