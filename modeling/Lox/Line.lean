set_option autoImplicit false

namespace Lox

def firstLine : Nat := 1

def noLine : Nat := 0

/-- The line reached from `line` by reading `text`: each line feed starts a new one. -/
def lineAfter (line : Nat) (text : List Char) : Nat :=
  line + text.count '\n'

@[simp] theorem lineAfter_nil (line : Nat) : lineAfter line [] = line := rfl

theorem lineAfter_append (line : Nat) (first second : List Char) :
    lineAfter line (first ++ second) = lineAfter (lineAfter line first) second := by
  simp only [lineAfter, List.count_append, Nat.add_assoc]

theorem lineAfter_add (line distance : Nat) (text : List Char) :
    lineAfter (line + distance) text = lineAfter line text + distance := by
  simp only [lineAfter]
  omega

end Lox
