import Lox.Expr.Evaluation
import Lox.Proofs.Expr.Shape
import Lox.Proofs.Token.Sequence

set_option autoImplicit false

namespace Lox

def RuntimeError.moved (distance : Nat) (e : RuntimeError) : RuntimeError :=
  { e with line := e.line + distance }

theorem Token.StandsFor.moved {t : Token} {value : Value} (stands : t.StandsFor value)
    (distance : Nat) : (t.moved distance).StandsFor value := by
  cases value with
  | number n => exact stands
  | string s => exact stands
  | boolean b => exact stands
  | nil => exact stands

theorem Token.applied_moved (operator : Token) (distance : Nat)
    (outcome : Except RuntimeFault Value) :
    (operator.moved distance).applied outcome =
      (operator.applied outcome).mapError (RuntimeError.moved distance) := by
  cases outcome <;> rfl

namespace Expr

def moved (distance : Nat) : Expr → Expr
  | literal value => literal value
  | grouping inner => grouping (inner.moved distance)
  | unary operator operand => unary (operator.moved distance) (operand.moved distance)
  | binary left operator right =>
    binary (left.moved distance) (operator.moved distance) (right.moved distance)

theorem level_moved (distance : Nat) (e : Expr) : (e.moved distance).level = e.level := by
  cases e <;> rfl

theorem endsOpen_moved (distance : Nat) (e : Expr) :
    (e.moved distance).endsOpen = e.endsOpen := by
  induction e with
  | literal value => rfl
  | grouping inner ih => rfl
  | unary operator operand ih => rfl
  | binary left operator right ihl ihr => exact ihr

theorem WellFormed.moved {e : Expr} (formed : e.WellFormed) (distance : Nat) :
    (e.moved distance).WellFormed := by
  induction e with
  | literal value => trivial
  | grouping inner ih => exact ih formed
  | unary operator operand ih =>
    obtain ⟨listed, reaches, formed⟩ := formed
    rw [← level_moved distance] at reaches
    exact ⟨listed, reaches, ih formed⟩
  | binary left operator right ihl ihr =>
    obtain ⟨isBinary, leftReaches, rightReaches, closed, leftFormed, rightFormed⟩ := formed
    rw [← level_moved distance] at leftReaches rightReaches
    rw [← endsOpen_moved distance] at closed
    exact ⟨isBinary, leftReaches, rightReaches, closed, ihl leftFormed, ihr rightFormed⟩

theorem Spells.moved {e : Expr} {word : List Token} (spelled : e.Spells word) (distance : Nat) :
    (e.moved distance).Spells (word.map (Token.moved distance)) := by
  induction spelled with
  | literal stands => exact .literal (stands.moved distance)
  | grouping opens spelled closes ih =>
    rw [List.map_cons, List.map_append]
    exact .grouping opens ih closes
  | unary spelled ih => exact .unary ih
  | binary before behind ihl ihr =>
    rw [List.map_append, List.map_cons]
    exact .binary ihl ihr

def mapOperators (f : Token → Token) : Expr → Expr
  | literal value => literal value
  | grouping inner => grouping (inner.mapOperators f)
  | unary operator operand => unary (f operator) (operand.mapOperators f)
  | binary left operator right =>
    binary (left.mapOperators f) (f operator) (right.mapOperators f)

/-- If the operators in the places of others are applied as these are, only errors change. -/
theorem evaluate_mapOperators {f : Token → Token} {g : RuntimeError → RuntimeError}
    (sameType : ∀ t, (f t).type = t.type)
    (applied : ∀ t outcome, (f t).applied outcome = (t.applied outcome).mapError g) (e : Expr) :
    (e.mapOperators f).evaluate = e.evaluate.mapError g := by
  induction e with
  | literal value => rfl
  | grouping inner ih => exact ih
  | unary operator operand ih =>
    rw [mapOperators, evaluate_unary, evaluate_unary, ih, sameType]
    cases operand.evaluate with
    | error error => rfl
    | ok value => exact applied operator _
  | binary left operator right ihl ihr =>
    rw [mapOperators, evaluate_binary, evaluate_binary, ihl, ihr, sameType]
    cases left.evaluate with
    | error error => rfl
    | ok a =>
      cases right.evaluate with
      | error error => rfl
      | ok b => exact applied operator _

theorem moved_eq_mapOperators (distance : Nat) (e : Expr) :
    e.moved distance = e.mapOperators (Token.moved distance) := by
  induction e with
  | literal value => rfl
  | grouping inner ih => rw [moved, mapOperators, ih]
  | unary operator operand ih => rw [moved, mapOperators, ih]
  | binary left operator right ihl ihr => rw [moved, mapOperators, ihl, ihr]

theorem evaluate_moved (distance : Nat) (e : Expr) :
    (e.moved distance).evaluate = e.evaluate.mapError (RuntimeError.moved distance) := by
  have sameType : ∀ t : Token, (t.moved distance).type = t.type := fun _ => rfl
  rw [moved_eq_mapOperators]
  exact evaluate_mapOperators sameType (fun t => t.applied_moved distance) e

end Expr

end Lox
