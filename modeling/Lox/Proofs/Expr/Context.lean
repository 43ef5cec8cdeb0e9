import Lox.Expr.Evaluation
import Lox.Proofs.Expr.Shape

set_option autoImplicit false

namespace Lox.Expr

/-- A tree with a hole in the place of one node. -/
inductive Context where
  | hole
  | grouping (inner : Context)
  | unary (operator : Token) (operand : Context)
  | left (left : Context) (operator : Token) (right : Expr)
  | right (left : Expr) (operator : Token) (right : Context)
deriving DecidableEq

namespace Context

/-- The tree with the given node in the hole. -/
def fill : Context → Expr → Expr
  | hole, x => x
  | grouping inner, x => .grouping (inner.fill x)
  | unary operator operand, x => .unary operator (operand.fill x)
  | left first operator second, x => .binary (first.fill x) operator second
  | right first operator second, x => .binary first operator (second.fill x)

/-- The tokens of a context in front of the hole, and those behind it. -/
inductive Spells : Context → List Token → List Token → Prop
  | hole : Spells .hole [] []
  | grouping {opening closing : Token} {inner : Context} {before behind : List Token}
    (opens : opening.type = .leftParen) (spelled : Spells inner before behind)
    (closes : closing.type = .rightParen) :
    Spells (.grouping inner) (opening :: before) (behind ++ [closing])
  | unary {operator : Token} {operand : Context} {before behind : List Token}
    (spelled : Spells operand before behind) :
    Spells (.unary operator operand) (operator :: before) behind
  | left {operator : Token} {first : Context} {second : Expr} {before behind word : List Token}
    (spelled : Spells first before behind) (later : second.Spells word) :
    Spells (.left first operator second) before (behind ++ operator :: word)
  | right {operator : Token} {first : Expr} {second : Context} {before behind word : List Token}
    (earlier : first.Spells word) (spelled : Spells second before behind) :
    Spells (.right first operator second) (word ++ operator :: before) behind

end Context

/-- The tokens of a tree come apart around a node: `own` are the tokens of the node `x`, which fills
the hole of the context. -/
structure Surrounds (word : List Token) (c : Context) (x : Expr) (before own behind : List Token) :
    Prop where
  whole : before ++ (own ++ behind) = word
  around : c.Spells before behind
  spelled : x.Spells own

section Spelling

variable {c : Context} {x e : Expr} {word other before own behind : List Token}

theorem Context.Spells.fill (around : c.Spells before behind) (spelled : x.Spells own) :
    (c.fill x).Spells (before ++ (own ++ behind)) := by
  induction around with
  | hole =>
    rw [List.nil_append, List.append_nil]
    exact spelled
  | grouping opens around closes ih =>
    have whole := Expr.Spells.grouping opens ih closes
    rw [List.append_assoc, List.append_assoc] at whole
    exact whole
  | unary around ih => exact .unary ih
  | @left operator first second before behind word around later ih =>
    have whole : (Expr.binary (first.fill x) operator second).Spells _ := .binary ih later
    rw [List.append_assoc, List.append_assoc] at whole
    exact whole
  | @right operator first second before behind word earlier around ih =>
    have whole : (Expr.binary first operator (second.fill x)).Spells _ := .binary earlier ih
    rw [List.append_assoc, List.cons_append]
    exact whole

/-- The tokens of a tree come apart around each of its nodes. -/
theorem Spells.exists_surrounds (spelled : (c.fill x).Spells word) :
    ∃ before own behind, Surrounds word c x before own behind := by
  induction c generalizing word with
  | hole => exact ⟨[], word, [], by simp, .hole, spelled⟩
  | grouping inner ih =>
    cases spelled with
    | @grouping opening closing _ word opens spelled closes =>
      obtain ⟨before, own, behind, rfl, around, node⟩ := ih spelled
      exact ⟨opening :: before, own, behind ++ [closing], by simp, .grouping opens around closes,
        node⟩
  | unary operator operand ih =>
    cases spelled with
    | unary spelled =>
      obtain ⟨before, own, behind, rfl, around, node⟩ := ih spelled
      exact ⟨operator :: before, own, behind, by simp, .unary around, node⟩
  | left first operator second ih =>
    cases spelled with
    | @binary _ _ _ _ later spelled secondSpelled =>
      obtain ⟨before, own, behind, rfl, around, node⟩ := ih spelled
      exact ⟨before, own, behind ++ operator :: later, by simp, .left around secondSpelled,
        node⟩
  | right first operator second ih =>
    cases spelled with
    | @binary _ _ _ earlier _ firstSpelled spelled =>
      obtain ⟨before, own, behind, rfl, around, node⟩ := ih spelled
      exact ⟨earlier ++ operator :: before, own, behind, by simp, .right firstSpelled around,
        node⟩

theorem Spells.length_eq (spelled : e.Spells word) (again : e.Spells other) :
    word.length = other.length := by
  induction spelled generalizing other with
  | literal _ =>
    cases again with
    | literal _ => rfl
  | grouping _ _ _ ih =>
    cases again with
    | grouping _ inner _ => simp [ih inner]
  | unary _ ih =>
    cases again with
    | unary operand => simp [ih operand]
  | binary _ _ ihl ihr =>
    cases again with
    | binary left right => simp [ihl left, ihr right]

theorem Context.Spells.length_eq {front back : List Token} (around : c.Spells before behind)
    (again : c.Spells front back) : before.length = front.length := by
  induction around generalizing front back with
  | hole =>
    cases again with
    | hole => rfl
  | grouping _ _ _ ih =>
    cases again with
    | grouping _ inner _ => simp [ih inner]
  | unary _ ih =>
    cases again with
    | unary operand => simp [ih operand]
  | left _ _ ih =>
    cases again with
    | left first _ => exact ih first
  | right earlier _ ih =>
    cases again with
    | right first second => simp [earlier.length_eq first, ih second]

/-- There is one way to take the tokens of a tree apart around a node. -/
theorem Surrounds.unique {front middle back : List Token}
    (first : Surrounds word c x before own behind) (second : Surrounds word c x front middle back) :
    front = before ∧ middle = own ∧ back = behind := by
  have same := second.whole.trans first.whole.symm
  obtain ⟨rfl, rest⟩ := List.append_inj same (second.around.length_eq first.around)
  obtain ⟨rfl, rfl⟩ := List.append_inj rest (second.spelled.length_eq first.spelled)
  exact ⟨rfl, rfl, rfl⟩

end Spelling

section Parentheses

variable {c : Context} {x : Expr}

theorem level_le_operandLevel (e : Expr) : e.level ≤ TokenType.operandLevel := by
  cases e with
  | binary left operator right => exact Nat.le_of_lt operator.type.level_lt_operandLevel
  | _ => exact Nat.le_refl _

theorem level_fill_le (c : Context) (x : Expr) :
    (c.fill x).level ≤ (c.fill (.grouping x)).level := by
  cases c with
  | hole => exact x.level_le_operandLevel
  | _ => exact Nat.le_refl _

/-- Parentheses never open a tree at its right edge. -/
theorem endsOpen_fill (closed : (c.fill x).endsOpen = false) :
    (c.fill (.grouping x)).endsOpen = false := by
  induction c with
  | hole => rfl
  | grouping inner ih => rfl
  | unary operator operand ih => exact closed
  | left first operator second ih => exact closed
  | right first operator second ih => exact ih closed

theorem WellFormed.fill_grouping (formed : (c.fill x).WellFormed) :
    (c.fill (.grouping x)).WellFormed := by
  induction c with
  | hole => exact formed
  | grouping inner ih => exact ih formed
  | unary operator operand ih =>
    obtain ⟨listed, reaches, formed⟩ := formed
    exact ⟨listed, Nat.le_trans reaches (level_fill_le operand x), ih formed⟩
  | left first operator second ih =>
    obtain ⟨isBinary, leftReaches, rightReaches, closed, leftFormed, rightFormed⟩ := formed
    exact ⟨isBinary, Nat.le_trans leftReaches (level_fill_le first x), rightReaches,
      fun high => endsOpen_fill (closed high), ih leftFormed, rightFormed⟩
  | right first operator second ih =>
    obtain ⟨isBinary, leftReaches, rightReaches, closed, leftFormed, rightFormed⟩ := formed
    exact ⟨isBinary, leftReaches, Nat.le_trans rightReaches (level_fill_le second x), closed,
      leftFormed, ih rightFormed⟩

end Parentheses

def ungrouped : Expr → Expr
  | literal value => .literal value
  | grouping inner => inner.ungrouped
  | unary operator operand => .unary operator operand.ungrouped
  | binary left operator right => .binary left.ungrouped operator right.ungrouped

theorem ungrouped_fill_grouping (c : Context) (x : Expr) :
    (c.fill (.grouping x)).ungrouped = (c.fill x).ungrouped := by
  induction c with
  | hole => rfl
  | grouping inner ih => exact ih
  | unary operator operand ih => simp only [Context.fill, ungrouped, ih]
  | left first operator second ih => simp only [Context.fill, ungrouped, ih]
  | right first operator second ih => simp only [Context.fill, ungrouped, ih]

/-- Parentheses play no part in evaluation. -/
theorem evaluate_ungrouped (e : Expr) : e.ungrouped.evaluate = e.evaluate := by
  induction e with
  | literal value => rfl
  | grouping inner ih => exact ih
  | unary operator operand ih => rw [ungrouped, evaluate_unary, evaluate_unary, ih]
  | binary left operator right ihl ihr =>
    rw [ungrouped, evaluate_binary, evaluate_binary, ihl, ihr]

theorem evaluate_eq_of_ungrouped {a b : Expr} (same : a.ungrouped = b.ungrouped) :
    a.evaluate = b.evaluate := by
  rw [← a.evaluate_ungrouped, same, b.evaluate_ungrouped]

end Lox.Expr
