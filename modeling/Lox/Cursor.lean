import Lox.Line
import Lox.Text.Utf8

set_option autoImplicit false

namespace Lox

/-- A position in `source`: what has been passed is summed up in `offset` and `line`, and what is
still to come is `rest`. -/
structure Cursor where
  source : String
  /-- The number of UTF-8 bytes passed. -/
  offset : Nat
  rest : List Char
  line : Nat

namespace Cursor

def ofSource (source : String) : Cursor :=
  ⟨source, 0, source.toList, firstLine⟩

/-- Two cursors are equal when they stand at the same offset of the same text. -/
instance : BEq Cursor where
  beq a b := a.source == b.source && a.offset == b.offset

def isAtEnd (c : Cursor) : Bool :=
  c.rest.isEmpty

def peek (c : Cursor) : Option Char :=
  c.rest[0]?

def peekNext (c : Cursor) : Option Char :=
  c.rest[1]?

/-- The text of the next `n` characters, or of all that remain if there are fewer. -/
def ahead (n : Nat) (c : Cursor) : String :=
  String.ofList (c.rest.take n)

/-- Passes over the next `n` characters, or over all that remain if there are fewer. -/
def skip (n : Nat) (c : Cursor) : Cursor :=
  let passed := c.rest.take n
  { c with
    offset := c.offset + utf8Length passed
    rest := c.rest.drop n
    line := lineAfter c.line passed }

/-- The next character and the position after it. -/
def next (c : Cursor) : Option Char × Cursor :=
  (c.peek, c.skip 1)

/-- Passes over `n` characters and takes the one after them. -/
def nth (n : Nat) (c : Cursor) : Option Char × Cursor :=
  (c.skip n).next

def nextIfEq (expected : Char) (c : Cursor) : Bool × Cursor :=
  if c.peek = some expected then (true, c.skip 1) else (false, c)

/-- Passes over the longest run of characters that satisfy `p`. -/
def advanceWhile (p : Char → Bool) (c : Cursor) : Cursor :=
  c.skip (c.rest.takeWhile p).length

def drain (c : Cursor) : String × Cursor :=
  (c.ahead c.rest.length, c.skip c.rest.length)

/-- The text from `start` to `stop`, which are positions in one source; `none` if `start` is past
`stop`. -/
def slice? (start stop : Cursor) : Option String :=
  if start.offset ≤ stop.offset then
    some (start.ahead (start.rest.length - stop.rest.length))
  else none

def description (c : Cursor) : String :=
  "Cursor \x7b line: Line(" ++ toString c.line ++ "), offset: " ++ toString c.offset ++ " \x7d"

@[simp] theorem rest_skip (n : Nat) (c : Cursor) : (c.skip n).rest = c.rest.drop n := rfl

@[simp] theorem line_skip (n : Nat) (c : Cursor) :
    (c.skip n).line = lineAfter c.line (c.rest.take n) := rfl

@[simp] theorem offset_skip (n : Nat) (c : Cursor) :
    (c.skip n).offset = c.offset + utf8Length (c.rest.take n) := rfl

@[simp] theorem source_skip (n : Nat) (c : Cursor) : (c.skip n).source = c.source := rfl

theorem skip_skip (m n : Nat) (c : Cursor) : (c.skip m).skip n = c.skip (m + n) := by
  simp only [skip, List.drop_drop, List.take_add, utf8Length_append, lineAfter_append,
    Nat.add_assoc]

end Cursor

end Lox
