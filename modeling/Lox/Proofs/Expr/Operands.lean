import Lox.Proofs.Expr.Kind
import Lox.Proofs.Expr.Machine

set_option autoImplicit false

namespace Lox

/-- The operator of a node; `none` for literals and groupings. -/
def Node.operator? : Node → Option Token
  | literal _ | grouping => none
  | unary operator | binary operator => some operator

/-- What the operator of a node makes of the values of its operands, the left one first; `none` if
the node has no operator or takes another number of operands. -/
def Node.outcome? : Node → List Value → Option (Except RuntimeFault Value)
  | unary operator, [operand] => some (operand.unary operator.type)
  | binary operator, [left, right] => some (left.binary operator.type right)
  | _, _ => none

namespace Expr

def root : Expr → Node
  | literal value => .literal value
  | grouping _ => .grouping
  | unary operator _ => .unary operator
  | binary _ operator _ => .binary operator

/-- The trees below the topmost node, in the order of their evaluation. -/
def operands : Expr → List Expr
  | literal _ => []
  | grouping inner => [inner]
  | unary _ operand => [operand]
  | binary left _ right => [left, right]

/-- A tree within another one, which can be that one itself. -/
inductive Part : Expr → Expr → Prop
  | whole (e : Expr) : Part e e
  | within {part operand e : Expr} (member : operand ∈ e.operands) (inside : Part part operand) :
    Part part e

theorem postorder_eq (e : Expr) : e.postorder = e.operands.flatMap postorder ++ [e.root] := by
  cases e with
  | literal value => rfl
  | grouping inner => simp [postorder, operands, root]
  | unary operator operand => simp [postorder, operands, root]
  | binary left operator right => simp [postorder, operands, root]

/-- What holds of a tree if it holds of its operands holds of every tree. -/
theorem operands_induction {motive : Expr → Prop}
    (step : ∀ e : Expr, (∀ x ∈ e.operands, motive x) → motive e) (e : Expr) : motive e := by
  induction e with
  | literal value => exact step _ (by simp [operands])
  | grouping inner ih => exact step _ (by simpa [operands] using ih)
  | unary operator operand ih => exact step _ (by simpa [operands] using ih)
  | binary left operator right ihl ihr => exact step _ (by simp [operands, ihl, ihr])

end Expr

namespace Machine

section Operands

variable {nodes front before behind : List Node} {node : Node} {stack reached : List Value}

theorem split_append {others : List Node} (split : nodes ++ others = before ++ node :: behind) :
    (∃ more, nodes = before ++ node :: more) ∨
      ∃ more, before = nodes ++ more ∧ others = more ++ node :: behind := by
  rcases List.append_eq_append_iff.mp split with ⟨more, before, rest⟩ | ⟨more, whole, rest⟩
  · exact .inr ⟨more, before, rest⟩
  · cases more with
    | nil =>
      rw [List.append_nil] at whole
      exact .inr ⟨[], by rw [whole, List.append_nil], rest.symm⟩
    | cons first more =>
      obtain ⟨rfl, _⟩ := List.cons.inj rest
      exact .inl ⟨more, whole⟩

theorem exists_tree_of_split {trees : List Expr}
    (split : trees.flatMap Expr.postorder = before ++ node :: behind) :
    ∃ front x, x ∈ trees ∧ ∃ inner rest, before = front ++ inner ∧
      x.postorder = inner ++ node :: rest := by
  induction trees generalizing before with
  | nil => simp at split
  | cons x trees ih =>
    rw [List.flatMap_cons] at split
    rcases split_append split with ⟨rest, inside⟩ | ⟨more, rfl, others⟩
    · exact ⟨[], x, List.mem_cons_self, before, rest, rfl, inside⟩
    · obtain ⟨front, y, member, inner, rest, rfl, found⟩ := ih others
      exact ⟨x.postorder ++ front, y, List.mem_cons_of_mem x member, inner, rest,
        (List.append_assoc ..).symm, found⟩

/-- Nodes of a tree that a machine gets through leave the value of the tree. -/
theorem evaluate_of_run_eq_ok {e : Expr} (ran : run e.postorder stack = .ok reached) :
    ∃ value, e.evaluate = .ok value ∧ reached = value :: stack := by
  have yielded := yields_postorder e stack
  generalize e.evaluate = outcome at yielded
  cases yielded with
  | @value value found =>
    rw [found] at ran
    exact ⟨value, rfl, (Except.ok.inj ran).symm⟩
  | error breaks =>
    obtain ⟨before, behind, split, ranBefore, refused⟩ := breaks
    rw [split, run_append ranBefore, run_cons_of_error refused] at ran
    cases ran

/-- The nodes of several trees leave their values on the stack, the last one on top. -/
theorem exists_values_of_run {trees : List Expr}
    (ran : run (trees.flatMap Expr.postorder) stack = .ok reached) :
    ∃ values : List Value, trees.map Expr.evaluate = values.map .ok ∧
      reached = values.reverse ++ stack := by
  induction trees generalizing stack with
  | nil =>
    obtain rfl := Except.ok.inj ran
    exact ⟨[], rfl, rfl⟩
  | cons x trees ih =>
    rw [List.flatMap_cons] at ran
    obtain ⟨between, first, others⟩ := exists_run_of_append ran
    obtain ⟨value, valued, rfl⟩ := evaluate_of_run_eq_ok first
    obtain ⟨values, evaluated, rfl⟩ := ih others
    refine ⟨value :: values, ?_, ?_⟩
    · rw [List.map_cons, List.map_cons, valued, evaluated]
    · rw [List.reverse_cons, List.append_assoc, List.singleton_append]

/-- The operands of every node that a run comes to have values, which are on top of the stack. -/
theorem exists_part_of_run {e : Expr} (split : e.postorder = before ++ node :: behind)
    (ran : run before stack = .ok reached) :
    ∃ part : Expr, part.Part e ∧ part.root = node ∧
      ∃ values below : List Value, part.operands.map Expr.evaluate = values.map .ok ∧
        reached = values.reverse ++ below := by
  induction e using Expr.operands_induction generalizing before behind stack with
  | step e ih =>
    rw [e.postorder_eq] at split
    rcases split_append split with ⟨rest, inside⟩ | ⟨more, rfl, last⟩
    · obtain ⟨front, x, member, inner, rest, rfl, found⟩ := exists_tree_of_split inside
      obtain ⟨between, _, ranInner⟩ := exists_run_of_append ran
      obtain ⟨part, isPart, found⟩ := ih x member found ranInner
      exact ⟨part, .within member isPart, found⟩
    · obtain ⟨rfl, last⟩ : more = [] ∧ [e.root] = node :: behind := by
        cases more with
        | nil => exact ⟨rfl, last⟩
        | cons first more => simp at last
      obtain ⟨rfl, _⟩ := List.cons.inj last
      rw [List.append_nil] at ran
      obtain ⟨values, evaluated, found⟩ := exists_values_of_run ran
      exact ⟨e, .whole e, rfl, values, stack, evaluated, found⟩

/-- A run over the nodes of a tree comes to the node and has these values for its operands on top of
the stack, the last one uppermost. All operators in front of the node could be applied. -/
def Meets (e : Expr) (node : Node) (values : List Value) : Prop :=
  ∃ before behind below, e.postorder = before ++ node :: behind ∧
    run before [] = .ok (values.reverse ++ below)

variable {values : List Value} {outcome : Except RuntimeFault Value} {operator : Token}
  {fault : RuntimeFault}

theorem deliver_eq_refused {stack : List Value}
    (refused : deliver operator stack outcome = .error (.refused operator fault)) :
    outcome = .error fault := by
  cases outcome with
  | ok value => cases refused
  | error found =>
    cases refused
    rfl

theorem outcome?_of_refused (refused : step node stack = .error (.refused operator fault)) :
    node.operator? = some operator ∧ ∃ values below, stack = values.reverse ++ below ∧
      node.outcome? values = some (.error fault) := by
  unfold step at refused
  split at refused
  case h_1 => cases refused
  case h_2 => cases refused
  case h_3 own operand below =>
    obtain rfl := eq_of_deliver_refused refused
    exact ⟨rfl, [operand], below, rfl, congrArg some (deliver_eq_refused refused)⟩
  case h_4 own right left below =>
    obtain rfl := eq_of_deliver_refused refused
    exact ⟨rfl, [left, right], below, rfl, congrArg some (deliver_eq_refused refused)⟩
  case h_5 => cases refused

theorem refused_of_outcome? (below : List Value)
    (refuses : node.outcome? values = some (.error fault)) :
    ∃ operator, node.operator? = some operator ∧
      step node (values.reverse ++ below) = .error (.refused operator fault) := by
  unfold Node.outcome? at refuses
  split at refuses
  next operator operand =>
    refine ⟨operator, rfl, ?_⟩
    rw [List.reverse_singleton, List.singleton_append, step, Option.some.inj refuses, deliver]
  next operator left right =>
    refine ⟨operator, rfl, ?_⟩
    simp only [List.reverse_cons, List.reverse_nil, List.nil_append, List.cons_append, step,
      Option.some.inj refuses, deliver]
  next => cases refuses

/-- The error of a tree is that of the first operator that refuses its operands. -/
theorem evaluate_eq_error_iff (e : Expr) (error : RuntimeError) :
    e.evaluate = .error error ↔ ∃ operator node values fault,
      node.operator? = some operator ∧ Meets e node values ∧
        node.outcome? values = some (.error fault) ∧ error = operator.blamed fault := by
  constructor
  · intro failed
    obtain ⟨before, behind, split, ran, refused⟩ := breaks_postorder failed
    obtain ⟨own, values, below, rfl, refuses⟩ := outcome?_of_refused refused
    exact ⟨_, _, values, _, own, ⟨before, behind, below, split, ran⟩, refuses, rfl⟩
  · rintro ⟨operator, node, values, fault, own, ⟨before, behind, below, split, ran⟩, refuses, rfl⟩
    obtain ⟨found, isOwn, refused⟩ := refused_of_outcome? below refuses
    obtain rfl := Option.some.inj (own.symm.trans isOwn)
    apply evaluate_of_run_refused
    rw [split, run_append ran, run_cons_of_error refused]

theorem length_of_outcome? {part : Expr} (applied : part.root.outcome? values = some outcome) :
    part.operands.length = values.length := by
  cases part with
  | literal value => cases applied
  | grouping inner => cases applied
  | unary operator operand =>
    match values, applied with
    | [_], _ => rfl
  | binary left operator right =>
    match values, applied with
    | [_, _], _ => rfl

theorem Meets.exists_part {e : Expr} (meets : Meets e node values)
    (applied : node.outcome? values = some outcome) :
    ∃ part : Expr, part.Part e ∧ part.root = node ∧
      part.operands.map Expr.evaluate = values.map .ok := by
  obtain ⟨before, behind, below, split, ran⟩ := meets
  obtain ⟨part, isPart, rfl, found, rest, evaluated, same⟩ := exists_part_of_run split ran
  have length : found.length = values.length := by
    rw [← length_of_outcome? applied]
    simpa using (congrArg List.length evaluated).symm
  have reversed := List.append_inj_left same (by simp [length])
  rw [List.reverse_inj.mp reversed]
  exact ⟨part, isPart, rfl, evaluated⟩

end Operands

end Machine

end Lox
