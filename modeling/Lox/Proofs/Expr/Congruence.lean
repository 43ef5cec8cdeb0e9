import Lox.Interpreter
import Lox.Proofs.Expr.Kind
import Lox.Proofs.Value.Equality

set_option autoImplicit false

namespace Lox

inductive SameOutcome {Error : Type} : Except Error Value → Except Error Value → Prop
  | value {v w : Value} (equal : v.equals w = true) : SameOutcome (.ok v) (.ok w)
  | error (error : Error) : SameOutcome (.error error) (.error error)

theorem SameOutcome.bind {Error : Type} {first second : Except Error Value}
    {next other : Value → Except Error Value} (same : SameOutcome first second)
    (more : ∀ v w, v.equals w = true → SameOutcome (next v) (other w)) :
    SameOutcome (first.bind next) (second.bind other) := by
  cases same with
  | value equal => exact more _ _ equal
  | error error => exact .error error

theorem SameOutcome.mapError {Error Other : Type} {first second : Except Error Value}
    (same : SameOutcome first second) (f : Error → Other) :
    SameOutcome (first.mapError f) (second.mapError f) := by
  cases same with
  | value equal => exact .value equal
  | error error => exact .error (f error)

theorem Token.SameOperator.applied {f g : Token} {first second : Except RuntimeFault Value}
    (operator : f.SameOperator g) (same : SameOutcome first second) :
    SameOutcome (f.applied first) (g.applied second) := by
  cases same with
  | value equal => exact .value equal
  | error fault =>
    rw [Token.applied, Token.applied, operator.lexeme, operator.line]
    exact .error _

namespace Value

variable {v w a b c d : Value}

theorem sameOutcome_unary (operator : TokenType) (equal : v.equals w = true) :
    SameOutcome (v.unary operator) (w.unary operator) := by
  cases operator with
  | minus =>
    rcases equals_iff.mp equal with rfl | ⟨m, n, rfl, rfl, same⟩
    · cases v with
      | number n => exact .value (equals_refl _)
      | _ => exact .error _
    · exact .value (Number.same_neg same)
  | bang =>
    simp only [unary, isTruthy_eq equal]
    exact .value (equals_refl _)
  | _ => exact .error _

/-- An operation on two numbers that cannot tell apart numbers which are the same. -/
theorem sameOutcome_onNumbers {operation : Number → Number → Value}
    (keeps : ∀ {k l m n : Number}, k.same l = true → m.same n = true →
      (operation k m).equals (operation l n) = true)
    (first : a.equals b = true) (second : c.equals d = true) :
    SameOutcome (onNumbers operation a c) (onNumbers operation b d) := by
  cases a with
  | number k =>
    cases b with
    | number l =>
      cases c with
      | number m =>
        cases d with
        | number n => exact .value (keeps first second)
        | _ => cases second
      | _ =>
        cases d with
        | number n => cases second
        | _ => exact .error _
    | _ => cases first
  | _ =>
    cases b with
    | number l => cases first
    | _ => exact .error _

theorem plus_string (v : Value) (s : String) :
    v.plus (.string s) = .ok (.string (v.text ++ s)) := by
  cases v <;> rfl

theorem plus_of_ne_string (left : Value) {right : Value} (noString : ∀ s, right ≠ .string s) :
    left.plus right =
      (onNumbers (fun a b => .number (a + b)) left right).mapError
        fun _ => .invalidPlusOperands := by
  cases right with
  | string s => exact absurd rfl (noString s)
  | _ => cases left <;> rfl

theorem sameOutcome_plus (first : a.equals b = true) (second : c.equals d = true) :
    SameOutcome (a.plus c) (b.plus d) := by
  by_cases isString : ∃ s, c = .string s
  · obtain ⟨s, rfl⟩ := isString
    rcases equals_iff.mp second with rfl | ⟨m, _, number, _⟩
    · rw [plus_string, plus_string, text_eq first]
      exact .value (equals_refl _)
    · cases number
  · have noString : ∀ s, c ≠ .string s := fun s same => isString ⟨s, same⟩
    have noString' : ∀ s, d ≠ .string s := by
      rintro s rfl
      rcases equals_iff.mp second with rfl | ⟨_, n, _, number, _⟩
      · exact noString s rfl
      · cases number
    rw [plus_of_ne_string a noString, plus_of_ne_string b noString']
    apply SameOutcome.mapError
    exact sameOutcome_onNumbers (fun first second => Number.same_operation first second (· + ·))
      first second

theorem sameOutcome_binary (operator : TokenType) (first : a.equals b = true)
    (second : c.equals d = true) :
    SameOutcome (a.binary operator c) (b.binary operator d) := by
  cases operator with
  | equalEqual | bangEqual =>
    simp only [binary, equals_eq first second]
    exact .value (equals_refl _)
  | plus => exact sameOutcome_plus first second
  | minus =>
    exact sameOutcome_onNumbers (fun first second => Number.same_operation first second (· - ·))
      first second
  | slash =>
    exact sameOutcome_onNumbers (fun first second => Number.same_operation first second (· / ·))
      first second
  | star =>
    exact sameOutcome_onNumbers (fun first second => Number.same_operation first second (· * ·))
      first second
  | greater =>
    refine sameOutcome_onNumbers (fun first second => ?_) first second
    rw [Number.lt_eq second first]
    exact equals_refl _
  | greaterEqual =>
    refine sameOutcome_onNumbers (fun first second => ?_) first second
    rw [Number.le_eq second first]
    exact equals_refl _
  | less =>
    refine sameOutcome_onNumbers (fun first second => ?_) first second
    rw [Number.lt_eq first second]
    exact equals_refl _
  | lessEqual =>
    refine sameOutcome_onNumbers (fun first second => ?_) first second
    rw [Number.le_eq first second]
    exact equals_refl _
  | _ => exact .error _

end Value

namespace Expr

variable {a b : Expr}

/-- The trees differ in no more than their literals, and these are equal in pairs. -/
def EqualLiterals : Expr → Expr → Prop :=
  Alike fun v w => v.equals w = true

theorem EqualLiterals.sameOutcome (equal : EqualLiterals a b) :
    SameOutcome a.evaluate b.evaluate := by
  induction equal with
  | literal values => exact .value values
  | grouping inner ih => exact ih
  | unary same operand ih =>
    rw [evaluate_unary, evaluate_unary]
    refine ih.bind fun v w equal => same.applied ?_
    rw [same.type]
    exact Value.sameOutcome_unary _ equal
  | binary left same right ihl ihr =>
    rw [evaluate_binary, evaluate_binary]
    refine ihl.bind fun v w first => ihr.bind fun x y second => same.applied ?_
    rw [same.type]
    exact Value.sameOutcome_binary _ first second

theorem interpret_eq_of_sameOutcome (same : SameOutcome a.evaluate b.evaluate) (sink : Sink) :
    interpret a sink = interpret b sink := by
  rw [interpret, interpret]
  generalize a.evaluate = first at same
  generalize b.evaluate = second at same
  cases same with
  | value equal => simp only [Value.output, Value.text_eq equal]
  | error error => rfl

/-- Equality is a congruence. Trees with equal literals both fail with the same error, or they have
values that are equal, count as equally true and have the same text. So the same is written for
both. -/
theorem evaluate_of_equalLiterals (equal : EqualLiterals a b) :
    ((∃ error, a.evaluate = .error error ∧ b.evaluate = .error error) ∨
      ∃ v w, a.evaluate = .ok v ∧ b.evaluate = .ok w ∧ v.equals w = true ∧
        v.isTruthy = w.isTruthy ∧ v.text = w.text) ∧
    ∀ sink, interpret a sink = interpret b sink := by
  have same := equal.sameOutcome
  refine ⟨?_, interpret_eq_of_sameOutcome same⟩
  generalize a.evaluate = first at same
  generalize b.evaluate = second at same
  cases same with
  | value equal =>
    exact .inr ⟨_, _, rfl, rfl, equal, Value.isTruthy_eq equal, Value.text_eq equal⟩
  | error error => exact .inl ⟨error, rfl, rfl⟩

/-- Two NaNs with different signs and payloads below a negation and in a text. -/
theorem evaluate_of_equalLiterals_payload :
    let minus : Token := ⟨.minus, "-", none, 1⟩
    let plus : Token := ⟨.plus, "+", none, 2⟩
    let tree n := binary (unary minus (literal (.number n))) plus (literal (.string "!"))
    let a := tree ⟨0x7FF8000000000000⟩
    let b := tree ⟨0xFFF8000000000001⟩
    EqualLiterals a b ∧
      ((∃ error, a.evaluate = .error error ∧ b.evaluate = .error error) ∨
        ∃ v w, a.evaluate = .ok v ∧ b.evaluate = .ok w ∧ v.equals w = true ∧
          v.isTruthy = w.isTruthy ∧ v.text = w.text) ∧
      ∀ sink, interpret a sink = interpret b sink := by
  intro minus plus tree a b
  have equal : EqualLiterals a b :=
    .binary (.unary ⟨rfl, rfl, rfl⟩ (.literal (by decide))) ⟨rfl, rfl, rfl⟩ (.literal (by decide))
  exact ⟨equal, evaluate_of_equalLiterals equal⟩

end Expr

end Lox
