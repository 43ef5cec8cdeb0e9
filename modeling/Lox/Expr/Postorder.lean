import Lox.Expr.Basic

set_option autoImplicit false

namespace Lox

/-- A node of an expression without its operands. -/
inductive Node where
  | literal (value : Value)
  | grouping
  | unary (operator : Token)
  | binary (operator : Token)
deriving DecidableEq

namespace Expr

def postorder : Expr → List Node
  | literal value => [.literal value]
  | grouping inner => inner.postorder ++ [.grouping]
  | unary operator operand => operand.postorder ++ [.unary operator]
  | binary left operator right => left.postorder ++ right.postorder ++ [.binary operator]

/-- Puts a node on top of its operands, which are the last trees of the stack; `none` if there are
too few. -/
def assemble : List Expr → Node → Option (List Expr)
  | stack, .literal value => some (literal value :: stack)
  | inner :: stack, .grouping => some (grouping inner :: stack)
  | operand :: stack, .unary operator => some (unary operator operand :: stack)
  | right :: left :: stack, .binary operator => some (binary left operator right :: stack)
  | _, _ => none

/-- The tree with the given nodes in post-order; `none` if they are not those of one tree. -/
def ofPostorder? (nodes : List Node) : Option Expr :=
  match nodes.foldlM assemble [] with
  | some [e] => some e
  | _ => none

theorem foldlM_assemble_postorder (e : Expr) (stack : List Expr) :
    e.postorder.foldlM assemble stack = some (e :: stack) := by
  induction e generalizing stack with
  | literal value => rfl
  | grouping inner ih => simp [postorder, List.foldlM_append, ih, assemble]
  | unary operator operand ih => simp [postorder, List.foldlM_append, ih, assemble]
  | binary left operator right ihl ihr =>
    simp [postorder, List.foldlM_append, ihl, ihr, assemble]

theorem ofPostorder?_postorder (e : Expr) : ofPostorder? e.postorder = some e := by
  simp only [ofPostorder?, foldlM_assemble_postorder]

end Expr

end Lox
