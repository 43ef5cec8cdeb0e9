import Lox.Proofs.Expr.Operands
import Lox.Proofs.Parser.Source

set_option autoImplicit false

namespace Lox

def numberOperators : List TokenType :=
  [.minus, .star, .slash, .greater, .greaterEqual, .less, .lessEqual]

/-- An operator that takes only numbers has an operand that is none. -/
inductive LacksNumber : Node → List Value → Prop
  | unary {operator : Token} {operand : Value} (negates : operator.type = .minus)
    (wrong : operand.kind ≠ .number) : LacksNumber (.unary operator) [operand]
  | binary {operator : Token} {left right : Value} (computes : operator.type ∈ numberOperators)
    (wrong : left.kind ≠ .number ∨ right.kind ≠ .number) :
    LacksNumber (.binary operator) [left, right]

/-- A `+` has no string on its right, and is not between two numbers. -/
inductive LacksSummand : Node → List Value → Prop
  | binary {operator : Token} {left right : Value} (adds : operator.type = .plus)
    (noString : right.kind ≠ .string) (noNumbers : ¬ (left.kind = .number ∧ right.kind = .number)) :
    LacksSummand (.binary operator) [left, right]

def RuntimeFault.Holds : RuntimeFault → Node → List Value → Prop
  | operandMustBeNumber => LacksNumber
  | invalidPlusOperands => LacksSummand

section Rules

variable {operator : TokenType} {fault : RuntimeFault}

theorem unary_eq_error_iff (listed : operator ∈ [.bang, .minus]) (operand : Value) :
    operand.unary operator = .error fault ↔
      fault = .operandMustBeNumber ∧ operator = .minus ∧ operand.kind ≠ .number := by
  cases operator with
  | minus => cases operand <;> simp [Value.unary, Value.kind, eq_comm]
  | bang => simp [Value.unary]
  | _ => exact absurd listed (by decide)

theorem onNumbers_eq_error_iff (operation : Number → Number → Value) (left right : Value) :
    Value.onNumbers operation left right = .error fault ↔
      fault = .operandMustBeNumber ∧ (left.kind ≠ .number ∨ right.kind ≠ .number) := by
  cases left <;> cases right <;> simp [Value.onNumbers, Value.kind, eq_comm]

theorem plus_eq_error_iff (left right : Value) :
    left.plus right = .error fault ↔
      fault = .invalidPlusOperands ∧ right.kind ≠ .string ∧
        ¬ (left.kind = .number ∧ right.kind = .number) := by
  cases left <;> cases right <;> simp [Value.plus, Value.kind, eq_comm]

theorem binary_eq_error_iff (isBinary : 1 ≤ operator.level) (left right : Value) :
    left.binary operator right = .error fault ↔
      (fault = .operandMustBeNumber ∧ operator ∈ numberOperators ∧
          (left.kind ≠ .number ∨ right.kind ≠ .number)) ∨
        (fault = .invalidPlusOperands ∧ operator = .plus ∧ right.kind ≠ .string ∧
          ¬ (left.kind = .number ∧ right.kind = .number)) := by
  cases operator with
  | equalEqual | bangEqual => simp [Value.binary, numberOperators]
  | plus => simp [Value.binary, numberOperators, plus_eq_error_iff]
  | minus | star | slash | greater | greaterEqual | less | lessEqual =>
    simp [Value.binary, numberOperators, onNumbers_eq_error_iff]
  | _ => exact absurd isBinary (by decide)

theorem outcome?_unary_iff (operator : Token) (values : List Value)
    (outcome : Except RuntimeFault Value) :
    (Node.unary operator).outcome? values = some outcome ↔
      ∃ operand, values = [operand] ∧ operand.unary operator.type = outcome := by
  constructor
  · intro applied
    match values, applied with
    | [operand], applied => exact ⟨operand, rfl, Option.some.inj applied⟩
  · rintro ⟨operand, rfl, rfl⟩
    rfl

theorem outcome?_binary_iff (operator : Token) (values : List Value)
    (outcome : Except RuntimeFault Value) :
    (Node.binary operator).outcome? values = some outcome ↔
      ∃ left right, values = [left, right] ∧ left.binary operator.type right = outcome := by
  constructor
  · intro applied
    match values, applied with
    | [left, right], applied => exact ⟨left, right, rfl, Option.some.inj applied⟩
  · rintro ⟨left, right, rfl, rfl⟩
    rfl

theorem holds_unary_iff (operator : Token) (values : List Value) (fault : RuntimeFault) :
    fault.Holds (.unary operator) values ↔
      ∃ operand, values = [operand] ∧ fault = .operandMustBeNumber ∧ operator.type = .minus ∧
        operand.kind ≠ .number := by
  constructor
  · intro holds
    cases fault with
    | operandMustBeNumber =>
      obtain ⟨negates, wrong⟩ := holds
      exact ⟨_, rfl, rfl, negates, wrong⟩
    | invalidPlusOperands => cases holds
  · rintro ⟨operand, rfl, rfl, negates, wrong⟩
    exact .unary negates wrong

theorem holds_binary_iff (operator : Token) (values : List Value) (fault : RuntimeFault) :
    fault.Holds (.binary operator) values ↔
      ∃ left right, values = [left, right] ∧
        ((fault = .operandMustBeNumber ∧ operator.type ∈ numberOperators ∧
            (left.kind ≠ .number ∨ right.kind ≠ .number)) ∨
          (fault = .invalidPlusOperands ∧ operator.type = .plus ∧ right.kind ≠ .string ∧
            ¬ (left.kind = .number ∧ right.kind = .number))) := by
  constructor
  · intro holds
    cases fault with
    | operandMustBeNumber =>
      obtain ⟨_, _⟩ | ⟨computes, wrong⟩ := holds
      exact ⟨_, _, rfl, .inl ⟨rfl, computes, wrong⟩⟩
    | invalidPlusOperands =>
      obtain ⟨adds, noString, noNumbers⟩ := holds
      exact ⟨_, _, rfl, .inr ⟨rfl, adds, noString, noNumbers⟩⟩
  · rintro ⟨left, right, rfl, ⟨rfl, computes, wrong⟩ | ⟨rfl, adds, noString, noNumbers⟩⟩
    · exact LacksNumber.binary computes wrong
    · exact LacksSummand.binary adds noString noNumbers

end Rules

namespace Expr

theorem WellFormed.of_mem_operands {x e : Expr} (formed : e.WellFormed) (member : x ∈ e.operands) :
    x.WellFormed := by
  cases e with
  | literal value => cases member
  | grouping inner => exact List.mem_singleton.mp member ▸ formed
  | unary operator operand => exact List.mem_singleton.mp member ▸ formed.2.2
  | binary left operator right =>
    obtain ⟨_, _, _, _, leftFormed, rightFormed⟩ := formed
    simp only [operands, List.mem_cons, List.not_mem_nil, or_false] at member
    rcases member with rfl | rfl
    · exact leftFormed
    · exact rightFormed

theorem WellFormed.of_part {part e : Expr} (formed : e.WellFormed) (isPart : part.Part e) :
    part.WellFormed := by
  induction isPart with
  | whole => exact formed
  | within member _ ih => exact ih (formed.of_mem_operands member)

theorem outcome?_root_iff {part : Expr} (formed : part.WellFormed) (values : List Value)
    (fault : RuntimeFault) :
    part.root.outcome? values = some (.error fault) ↔ fault.Holds part.root values := by
  cases part with
  | literal value => exact ⟨nofun, fun holds => by cases fault <;> cases holds⟩
  | grouping inner => exact ⟨nofun, fun holds => by cases fault <;> cases holds⟩
  | unary operator operand =>
    rw [root, outcome?_unary_iff, holds_unary_iff]
    exact exists_congr fun value => and_congr_right fun _ => unary_eq_error_iff formed.1 value
  | binary left operator right =>
    rw [root, outcome?_binary_iff, holds_binary_iff]
    exact exists_congr fun first => exists_congr fun second => and_congr_right fun _ =>
      binary_eq_error_iff formed.1 first second

end Expr

section Program

variable {e : Expr} {node : Node} {values : List Value} {fault : RuntimeFault}

theorem exists_outcome?_of_holds (holds : fault.Holds node values) :
    ∃ outcome, node.outcome? values = some outcome := by
  cases fault with
  | operandMustBeNumber =>
    cases holds with
    | unary => exact ⟨_, rfl⟩
    | binary => exact ⟨_, rfl⟩
  | invalidPlusOperands =>
    cases holds with
    | binary => exact ⟨_, rfl⟩

/-- An operator of a well-formed tree refuses the operands that a run finds for it if they lack what
the fault says. -/
theorem outcome?_iff_holds (formed : e.WellFormed) (meets : Machine.Meets e node values) :
    node.outcome? values = some (.error fault) ↔ fault.Holds node values := by
  constructor
  · intro refuses
    obtain ⟨part, isPart, rfl, _⟩ := meets.exists_part refuses
    exact (Expr.outcome?_root_iff (formed.of_part isPart) values fault).mp refuses
  · intro holds
    obtain ⟨outcome, applied⟩ := exists_outcome?_of_holds holds
    obtain ⟨part, isPart, rfl, _⟩ := meets.exists_part applied
    exact (Expr.outcome?_root_iff (formed.of_part isPart) values fault).mpr holds

theorem evaluate_eq_blamed_iff (formed : e.WellFormed) (fault : RuntimeFault) (lexeme : String)
    (line : Nat) :
    e.evaluate = .error ⟨fault, lexeme, line⟩ ↔
      ∃ operator node values, node.operator? = some operator ∧ operator.lexeme = lexeme ∧
        operator.line = line ∧ Machine.Meets e node values ∧ fault.Holds node values := by
  rw [Machine.evaluate_eq_error_iff]
  constructor
  · rintro ⟨operator, node, values, found, own, meets, refuses, same⟩
    obtain ⟨rfl, rfl, rfl⟩ := RuntimeError.mk.inj same
    exact ⟨operator, node, values, own, rfl, rfl, meets,
      (outcome?_iff_holds formed meets).mp refuses⟩
  · rintro ⟨operator, node, values, own, rfl, rfl, meets, holds⟩
    exact ⟨operator, node, values, fault, own, meets, (outcome?_iff_holds formed meets).mpr holds,
      rfl⟩

theorem RuntimeFault.Holds.operator_type {operator : Token} (holds : fault.Holds node values)
    (own : node.operator? = some operator) : operator.type ∈ .plus :: numberOperators := by
  cases fault with
  | operandMustBeNumber =>
    cases holds with
    | unary negates wrong =>
      obtain rfl := Option.some.inj own
      rw [negates]
      decide
    | binary computes wrong =>
      obtain rfl := Option.some.inj own
      exact List.mem_cons_of_mem _ computes
  | invalidPlusOperands =>
    cases holds with
    | binary adds noString noNumbers =>
      obtain rfl := Option.some.inj own
      rw [adds]
      exact List.mem_cons_self

theorem RuntimeFault.Holds.exists_kind_ne_number (holds : fault.Holds node values) :
    ∃ value ∈ values, value.kind ≠ .number := by
  cases fault with
  | operandMustBeNumber =>
    cases holds with
    | unary negates wrong => exact ⟨_, List.mem_singleton_self _, wrong⟩
    | binary computes wrong =>
      rcases wrong with wrong | wrong
      · exact ⟨_, List.mem_cons_self, wrong⟩
      · exact ⟨_, List.mem_cons_of_mem _ (List.mem_singleton_self _), wrong⟩
  | invalidPlusOperands =>
    cases holds with
    | @binary _ left right adds noString noNumbers =>
      by_cases number : right.kind = .number
      · exact ⟨left, List.mem_cons_self, fun both => noNumbers ⟨both, number⟩⟩
      · exact ⟨right, List.mem_cons_of_mem _ (List.mem_singleton_self _), number⟩

/-- The runtime errors of a program tell the truth. It fails for want of a number exactly if the
first operator in post-order that cannot be applied is a unary `-` whose operand is no number, or
one of `- * / > >= < <=` with an operand that is none, and for want of a summand exactly if that
operator is a `+` without a string on its right and not between two numbers; the error names that
operator and its line. No other operator fails, and none does between numbers. The values that an
operator is applied to are those of its operands in the tree. -/
theorem runtime_errors_tell_truth {source : String} (read : parseSource source = .ok e) :
    (∀ lexeme line, e.evaluate = .error ⟨.operandMustBeNumber, lexeme, line⟩ ↔
      ∃ operator node values, node.operator? = some operator ∧ operator.lexeme = lexeme ∧
        operator.line = line ∧ Machine.Meets e node values ∧ LacksNumber node values) ∧
    (∀ lexeme line, e.evaluate = .error ⟨.invalidPlusOperands, lexeme, line⟩ ↔
      ∃ operator node values, node.operator? = some operator ∧ operator.lexeme = lexeme ∧
        operator.line = line ∧ Machine.Meets e node values ∧ LacksSummand node values) ∧
    (∀ node values fault, Machine.Meets e node values →
      node.outcome? values = some (.error fault) →
        (∀ operator, node.operator? = some operator →
          operator.type ∉ [TokenType.bang, .equalEqual, .bangEqual]) ∧
        ∃ value ∈ values, value.kind ≠ .number) ∧
    ∀ node values outcome, Machine.Meets e node values → node.outcome? values = some outcome →
      ∃ part : Expr, part.Part e ∧ part.root = node ∧
        part.operands.map Expr.evaluate = values.map .ok := by
  obtain ⟨_, _, formed, _⟩ := (parseSource_eq_ok_iff source e).mp read
  refine ⟨evaluate_eq_blamed_iff formed .operandMustBeNumber,
    evaluate_eq_blamed_iff formed .invalidPlusOperands, ?_, ?_⟩
  · intro node values fault meets refuses
    have holds := (outcome?_iff_holds formed meets).mp refuses
    refine ⟨fun operator own => ?_, holds.exists_kind_ne_number⟩
    have apart : ∀ type ∈ .plus :: numberOperators,
        type ∉ [TokenType.bang, .equalEqual, .bangEqual] := by decide
    exact apart operator.type (holds.operator_type own)
  · intro node values outcome meets applied
    exact meets.exists_part applied

/-- The `+` can be applied, since a string stands on its right, so it is the `-` that fails. -/
theorem runtime_errors_tell_truth_difference :
    let e : Expr := .binary (.grouping (.binary (.literal .nil) ⟨.plus, "+", none, 1⟩
      (.literal (.string "a")))) ⟨.minus, "-", none, 1⟩ (.literal (.boolean true))
    parseSource "(nil + \"a\") - true" = .ok e ∧
      ∃ operator node values, node.operator? = some operator ∧ operator.lexeme = "-" ∧
        operator.line = 1 ∧ Machine.Meets e node values ∧ LacksNumber node values := by
  intro e
  have read : parseSource "(nil + \"a\") - true" = .ok e := by with_unfolding_all rfl
  exact ⟨read, ((runtime_errors_tell_truth read).1 "-" 1).mp rfl⟩

end Program

end Lox
