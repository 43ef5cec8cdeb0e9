import Lox.Cursor

set_option autoImplicit false

namespace Lox

theorem utf8Length_eq_utf8ByteSize (text : List Char) :
    utf8Length text = (String.ofList text).utf8ByteSize := by
  induction text with
  | nil => rfl
  | cons c text ih =>
    rw [utf8Length, ih, String.ofList_cons, String.utf8ByteSize_append,
      String.utf8ByteSize_singleton]

theorem utf8Length_pos {text : List Char} (nonempty : text ≠ []) : 0 < utf8Length text := by
  cases text with
  | nil => exact absurd rfl nonempty
  | cons c rest => exact Nat.add_pos_left c.utf8Size_pos _

/-- The byte offsets in a text are ordered as the numbers of characters in front of them. -/
theorem utf8Length_take_le_iff {text : List Char} {m n : Nat} (within : m ≤ text.length) :
    utf8Length (text.take m) ≤ utf8Length (text.take n) ↔ m ≤ n := by
  constructor
  · refine fun ordered => Nat.le_of_not_lt fun past => ?_
    -- Between the two offsets stands a character, and every character has bytes.
    have parts : text.take m = text.take n ++ (text.drop n).take (m - n) := by
      rw [← List.take_add, Nat.add_sub_cancel' (by omega)]
    have nonempty : (text.drop n).take (m - n) ≠ [] := by
      rw [← List.length_pos_iff, List.length_take, List.length_drop]
      omega
    rw [parts, utf8Length_append] at ordered
    have positive := utf8Length_pos nonempty
    omega
  · intro ordered
    rw [← Nat.add_sub_cancel' ordered, List.take_add, utf8Length_append]
    exact Nat.le_add_right _ _

namespace Cursor

/-- What can be asked of a cursor. Its clones are counted from the one that was saved last. -/
inductive Operation where
  | next
  | nth (n : Nat)
  | nextIfEq (expected : Char)
  | advanceWhile (p : Char → Bool)
  | drain
  | peek
  | peekNext
  | isAtEnd
  | offset
  | line
  | description
  | save
  | restore (clone : Nat)
  | slice (clone : Nat)
  | equals (clone : Nat)

inductive Answer where
  | nothing
  | char (c : Option Char)
  | flag (b : Bool)
  | number (n : Nat)
  | text (s : Option String)
deriving DecidableEq

/-- A cursor and its clones, the one that was saved last in front. -/
structure Walk where
  cursor : Cursor
  clones : List Cursor

namespace Walk

def ofSource (source : String) : Walk :=
  ⟨.ofSource source, []⟩

def move (w : Walk) (answer : Answer) (c : Cursor) : Answer × Walk :=
  (answer, { w with cursor := c })

/-- What an operation answers, and the walk behind it. A clone that does not exist stands for the
cursor itself. -/
def perform (w : Walk) : Operation → Answer × Walk
  | .next => let (c, later) := w.cursor.next; w.move (.char c) later
  | .nth n => let (c, later) := w.cursor.nth n; w.move (.char c) later
  | .nextIfEq expected => let (b, later) := w.cursor.nextIfEq expected; w.move (.flag b) later
  | .advanceWhile p => w.move .nothing (w.cursor.advanceWhile p)
  | .drain => let (s, later) := w.cursor.drain; w.move (.text s) later
  | .peek => (.char w.cursor.peek, w)
  | .peekNext => (.char w.cursor.peekNext, w)
  | .isAtEnd => (.flag w.cursor.isAtEnd, w)
  | .offset => (.number w.cursor.offset, w)
  | .line => (.number w.cursor.line, w)
  | .description => (.text w.cursor.description, w)
  | .save => (.nothing, { w with clones := w.cursor :: w.clones })
  | .restore clone => w.move .nothing (w.clones.getD clone w.cursor)
  | .slice clone => (.text ((w.clones.getD clone w.cursor).slice? w.cursor), w)
  | .equals clone => (.flag (w.cursor == w.clones.getD clone w.cursor), w)

def after (w : Walk) : List Operation → Walk
  | [] => w
  | operation :: later => (w.perform operation).2.after later

def answers (w : Walk) : List Operation → List Answer
  | [] => []
  | operation :: later => (w.perform operation).1 :: (w.perform operation).2.answers later

end Walk

/-- Some sequence of operations leads from the start of `source` to the cursor. -/
def Reached (source : String) (c : Cursor) : Prop :=
  ∃ operations, ((Walk.ofSource source).after operations).cursor = c

section Positions

variable {source other : String} {c d : Cursor} {n : Nat}

/-- The cursor has passed `n` characters of `source`. -/
structure HasPassed (source : String) (n : Nat) (c : Cursor) : Prop where
  within : n ≤ source.toList.length
  eq_skip : c = (ofSource source).skip n

namespace HasPassed

theorem zero (source : String) : (ofSource source).HasPassed source 0 :=
  ⟨Nat.zero_le _, rfl⟩

theorem source_eq (passed : c.HasPassed source n) : c.source = source := by
  rw [passed.eq_skip]
  rfl

theorem rest_eq (passed : c.HasPassed source n) : c.rest = source.toList.drop n := by
  rw [passed.eq_skip]
  rfl

theorem offset_eq (passed : c.HasPassed source n) :
    c.offset = utf8Length (source.toList.take n) := by
  rw [passed.eq_skip, offset_skip]
  exact Nat.zero_add _

theorem offset_add (passed : c.HasPassed source n) :
    c.offset + (String.ofList c.rest).utf8ByteSize = source.utf8ByteSize := by
  have whole : source.utf8ByteSize = utf8Length source.toList := by
    rw [utf8Length_eq_utf8ByteSize, String.ofList_toList]
  rw [whole, ← utf8Length_eq_utf8ByteSize, passed.offset_eq, passed.rest_eq, ← utf8Length_append,
    List.take_append_drop]

theorem line_eq (passed : c.HasPassed source n) :
    c.line = lineAfter firstLine (source.toList.take n) := by
  rw [passed.eq_skip]
  rfl

theorem skip (passed : c.HasPassed source n) (m : Nat) :
    (c.skip m).HasPassed source (min (n + m) source.toList.length) := by
  refine ⟨Nat.min_le_right _ _, ?_⟩
  rw [passed.eq_skip, skip_skip]
  rcases Nat.le_total (n + m) source.toList.length with within | past
  · rw [Nat.min_eq_left within]
  · -- Either number takes all characters and leaves none.
    rw [Nat.min_eq_right past]
    have all : (ofSource source).rest.length ≤ n + m := past
    simp only [Cursor.skip, List.take_of_length_le all, List.drop_of_length_le all]
    rw [show source.toList.length = (ofSource source).rest.length from rfl, List.take_length,
      List.drop_length]

/-- The offset of a cursor tells how many characters it has passed. -/
theorem offset_le_iff {m : Nat} (passed : c.HasPassed source m) (more : d.HasPassed source n) :
    c.offset ≤ d.offset ↔ m ≤ n := by
  rw [passed.offset_eq, more.offset_eq]
  exact utf8Length_take_le_iff passed.within

theorem eq_of_beq (passed : c.HasPassed source n) {m : Nat} (otherPassed : d.HasPassed other m)
    (same : (c == d) = true) : c = d := by
  obtain ⟨sources, offsets⟩ := Bool.and_eq_true_iff.mp same
  have sources : source = other := by
    rw [← passed.source_eq, ← otherPassed.source_eq]
    exact beq_iff_eq.mp sources
  have offsets : c.offset = d.offset := beq_iff_eq.mp offsets
  subst sources
  have forth := (passed.offset_le_iff otherPassed).mp (Nat.le_of_eq offsets)
  have back := (otherPassed.offset_le_iff passed).mp (Nat.le_of_eq offsets.symm)
  rw [passed.eq_skip, otherPassed.eq_skip, Nat.le_antisymm forth back]

/-- The characters that are passed end at a boundary of the text. -/
theorem exists_boundary (passed : c.HasPassed source n) :
    ∃ boundary : source.Pos, boundary.offset.byteIdx = c.offset ∧
      boundary.Splits (String.ofList (source.toList.take n)) (String.ofList c.rest) := by
  have parts : source = String.ofList (source.toList.take n) ++ String.ofList c.rest := by
    rw [passed.rest_eq, ← String.ofList_append, List.take_append_drop, String.ofList_toList]
  have offset : (String.ofList (source.toList.take n)).rawEndPos.byteIdx = c.offset := by
    rw [passed.offset_eq, utf8Length_eq_utf8ByteSize]
    rfl
  have valid := String.Pos.Raw.isValid_iff_exists_append.mpr ⟨_, _, parts, rfl⟩
  exact ⟨⟨_, valid⟩, offset, parts, rfl⟩

end HasPassed

end Positions

section Walks

variable {source other : String} {c d : Cursor}

/-- The cursor of a walk and all its clones have passed some of `source`. -/
def Walk.IsIn (source : String) (w : Walk) : Prop :=
  ∀ c ∈ w.cursor :: w.clones, ∃ n, c.HasPassed source n

theorem Walk.isIn_ofSource (source : String) : (ofSource source).IsIn source := by
  intro c member
  obtain rfl := List.mem_singleton.mp member
  exact ⟨0, .zero source⟩

/-- The three things an operation can do to a walk. -/
inductive Walk.Step (w : Walk) : Walk → Prop
  | skip (n : Nat) : Step w { w with cursor := w.cursor.skip n }
  | save : Step w { w with clones := w.cursor :: w.clones }
  | restore {c : Cursor} (kept : c ∈ w.clones) : Step w { w with cursor := c }

theorem Walk.Step.none (w : Walk) : w.Step w :=
  .skip 0

theorem Walk.step_perform (w : Walk) (operation : Operation) :
    w.Step (w.perform operation).2 := by
  cases operation with
  | next => exact .skip 1
  | nth n =>
    have moved := Step.skip (w := w) (n + 1)
    rwa [← skip_skip] at moved
  | nextIfEq expected =>
    by_cases same : w.cursor.peek = some expected
    · simp only [perform, move, nextIfEq, if_pos same]
      exact .skip 1
    · simp only [perform, move, nextIfEq, if_neg same]
      exact .none w
  | advanceWhile p => exact .skip _
  | drain => exact .skip _
  | peek => exact .none w
  | peekNext => exact .none w
  | isAtEnd => exact .none w
  | offset => exact .none w
  | line => exact .none w
  | description => exact .none w
  | save => exact .save
  | restore clone =>
    rw [perform, move, List.getD_eq_getElem?_getD]
    cases kept : w.clones[clone]? with
    | none => exact .none w
    | some c => exact .restore (List.mem_of_getElem? kept)
  | slice clone => exact .none w
  | equals clone => exact .none w

theorem Walk.Step.isIn {w later : Walk} (step : w.Step later) (inside : w.IsIn source) :
    later.IsIn source := by
  have ⟨here, clones⟩ := List.forall_mem_cons.mp inside
  cases step with
  | skip n =>
    obtain ⟨m, passed⟩ := here
    exact List.forall_mem_cons.mpr ⟨⟨_, passed.skip n⟩, clones⟩
  | save => exact List.forall_mem_cons.mpr ⟨here, inside⟩
  | restore kept => exact List.forall_mem_cons.mpr ⟨clones _ kept, clones⟩

theorem Walk.isIn_after {w : Walk} (operations : List Operation) (inside : w.IsIn source) :
    (w.after operations).IsIn source := by
  induction operations generalizing w with
  | nil => exact inside
  | cons operation later ih => exact ih ((w.step_perform operation).isIn inside)

theorem Reached.exists_hasPassed (reached : c.Reached source) : ∃ n, c.HasPassed source n := by
  obtain ⟨operations, rfl⟩ := reached
  exact Walk.isIn_after operations (Walk.isIn_ofSource source) _ List.mem_cons_self

theorem peek_eq_head? (c : Cursor) : c.peek = c.rest.head? :=
  List.head?_eq_getElem?.symm

theorem peekNext_of_rest {a : Char} {later : List Char} (rest : c.rest = a :: later) :
    c.peekNext = later.head? := by
  rw [peekNext, rest, List.head?_eq_getElem?]
  rfl

/-- A run of characters is passed over up to its end and no further. -/
theorem advanceWhile_rest (p : Char → Bool) (c : Cursor) :
    (c.advanceWhile p).rest = c.rest.dropWhile p := by
  have parts : c.rest.takeWhile p ++ c.rest.dropWhile p = c.rest := List.takeWhile_append_dropWhile
  calc (c.advanceWhile p).rest
      = (c.rest.takeWhile p ++ c.rest.dropWhile p).drop (c.rest.takeWhile p).length := by
        rw [parts, advanceWhile, rest_skip]
    _ = c.rest.dropWhile p := List.drop_left

/-- Every cursor that is reached stands at a character boundary of its source, which is also known
from the bytes behind it, has the text behind it still to come, and counts the line feeds in front
of it. Two of them that compare equal are on the same line and give the same answers to everything.
-/
theorem reached_cursor_position (reached : c.Reached source) :
    (∃ (boundary : source.Pos) (before : String), boundary.offset.byteIdx = c.offset ∧
      boundary.Splits before (String.ofList c.rest) ∧
      c.offset = source.utf8ByteSize - (String.ofList c.rest).utf8ByteSize ∧
      c.line = 1 + before.toList.count '\n' ∧
      c.peek = source.toList[before.length]? ∧ c.peekNext = source.toList[before.length + 1]?) ∧
    (∀ p, ∃ run, c.rest = run ++ (c.advanceWhile p).rest ∧ (∀ a ∈ run, p a = true) ∧
      ∀ a, (c.advanceWhile p).peek = some a → p a = false) ∧
    ∀ (other : String) (d : Cursor), d.Reached other → (c == d) = true →
      c.line = d.line ∧ ∀ clones operations,
        (Walk.mk c clones).answers operations = (Walk.mk d clones).answers operations := by
  obtain ⟨n, passed⟩ := reached.exists_hasPassed
  refine ⟨?_, fun p => ?_, fun other d otherReached same => ?_⟩
  · obtain ⟨boundary, offset, splits⟩ := passed.exists_boundary
    have length : (String.ofList (source.toList.take n)).length = n := by
      rw [String.length_ofList, List.length_take_of_le passed.within]
    refine ⟨boundary, _, offset, splits, ?_, ?_, ?_, ?_⟩
    · rw [← passed.offset_add, Nat.add_sub_cancel]
    · rw [passed.line_eq, String.toList_ofList]
      rfl
    · rw [length, peek, passed.rest_eq, List.getElem?_drop]
      rfl
    · rw [length, peekNext, passed.rest_eq, List.getElem?_drop]
  · refine ⟨c.rest.takeWhile p, ?_, fun a member => ?_, fun a next => ?_⟩
    · rw [advanceWhile_rest, List.takeWhile_append_dropWhile]
    · exact List.all_eq_true.mp List.all_takeWhile a member
    · rw [peek_eq_head?, advanceWhile_rest] at next
      have stops := List.head?_dropWhile_not p c.rest
      rw [next] at stops
      exact stops
  · obtain ⟨m, otherPassed⟩ := otherReached.exists_hasPassed
    obtain rfl := passed.eq_of_beq otherPassed same
    exact ⟨rfl, fun clones operations => rfl⟩

/-- Behind a line feed, a character of three bytes and another line feed a cursor is at the fifth
byte, whichever way it has gone there. -/
theorem reached_cursor_position_multibyte :
    let source := "\n€\nx"
    let c := ((Walk.ofSource source).after [.advanceWhile (· ≠ 'x')]).cursor
    let d := ((Walk.ofSource source).after [.next, .save, .drain, .restore 0, .nth 1]).cursor
    (∃ boundary : source.Pos, boundary.offset.byteIdx = 5) ∧ c.line = 3 ∧ c.peek = some 'x' ∧
      (c == d) = true ∧ d.line = 3 := by
  intro source c d
  have same : (c == d) = true := by decide
  obtain ⟨⟨boundary, _, offset, _⟩, _, sound⟩ := reached_cursor_position ⟨_, rfl⟩ (c := c)
  have line : c.line = 3 := by decide
  have lines := (sound source d ⟨_, rfl⟩ same).1
  exact ⟨⟨boundary, offset.trans (by decide)⟩, line, by decide, same, lines ▸ line⟩

end Walks

end Cursor

end Lox
