import Lox.Proofs.Token.Repair
import Lox.Proofs.Token.Slices

set_option autoImplicit false

namespace Lox

namespace Cursor

/-- From one position a loop makes the given number of turns and stops at the other. A loop that
never stops is in no such relation. -/
inductive Loops (turn? : Cursor → Option Cursor) : Nat → Cursor → Cursor → Prop
  | stop {c : Cursor} (stops : turn? c = none) : Loops turn? 0 c c
  | turn {turns : Nat} {c later last : Cursor} (turned : turn? c = some later)
    (more : Loops turn? turns later last) : Loops turn? (turns + 1) c last

/-- One turn of the loop over characters that satisfy `p`. -/
def whileStep? (p : Char → Bool) (c : Cursor) : Option Cursor :=
  if c.peek.any p then some c.next.2 else none

section Loops

variable {turn? : Cursor → Option Cursor} {p : Char → Bool} {c last : Cursor} {turns : Nat}

/-- A loop ends if every turn passes over some text, and makes no more turns than there are
characters. -/
theorem exists_loops
    (shortens : ∀ c later, turn? c = some later → later.rest.length < c.rest.length) (c : Cursor) :
    ∃ turns last, turns ≤ c.rest.length ∧ Loops turn? turns c last := by
  cases turned : turn? c with
  | none => exact ⟨0, c, Nat.zero_le _, .stop turned⟩
  | some later =>
    have shorter := shortens c later turned
    obtain ⟨turns, last, few, more⟩ := exists_loops shortens later
    exact ⟨turns + 1, last, Nat.lt_of_le_of_lt few shorter, .turn turned more⟩
termination_by c.rest.length

theorem Loops.eq_skipGap (loops : Loops gapStep? turns c last) : last = c.skipGap := by
  induction loops with
  | stop stops => exact (skipGap_of_none stops).symm
  | turn turned more ih => rw [ih, skipGap_of_some turned]

theorem exists_loops_gapStep? (c : Cursor) :
    ∃ turns ≤ c.rest.length, Loops gapStep? turns c (c.skip (gapLength c.rest)) := by
  obtain ⟨turns, last, few, loops⟩ :=
    exists_loops (fun _ _ turned => length_rest_gapStep?_lt turned) c
  refine ⟨turns, few, ?_⟩
  rwa [← skipGap_eq, ← loops.eq_skipGap]

theorem whileStep?_cases (p : Char → Bool) (c : Cursor) :
    (c.whileStep? p = none ∧ c.advanceWhile p = c) ∨
      ∃ later, c.whileStep? p = some later ∧ later.rest.length < c.rest.length ∧
        later.advanceWhile p = c.advanceWhile p := by
  rw [whileStep?, peek_eq_head?]
  cases rest : c.rest with
  | nil =>
    refine .inl ⟨rfl, ?_⟩
    rw [advanceWhile, rest]
    rfl
  | cons a behind =>
    rw [List.head?_cons, Option.any_some]
    cases inside : p a with
    | false =>
      refine .inl ⟨rfl, ?_⟩
      rw [advanceWhile, rest, List.takeWhile_cons_of_neg (by simp [inside])]
      rfl
    | true =>
      have left : (c.skip 1).rest = behind := by rw [rest_skip, rest]; rfl
      refine .inr ⟨c.skip 1, rfl, ?_, ?_⟩
      · rw [left]
        exact Nat.lt_succ_self _
      · rw [advanceWhile, advanceWhile, left, rest, List.takeWhile_cons_of_pos inside, skip_skip,
          List.length_cons, Nat.add_comm]

theorem length_rest_whileStep?_lt {later : Cursor} (turned : c.whileStep? p = some later) :
    later.rest.length < c.rest.length := by
  rcases c.whileStep?_cases p with ⟨none, _⟩ | ⟨next, moved, shorter, _⟩
  · cases none.symm.trans turned
  · rwa [← Option.some.inj (moved.symm.trans turned)]

theorem Loops.eq_advanceWhile (loops : Loops (whileStep? p) turns c last) :
    last = c.advanceWhile p := by
  induction loops with
  | @stop c stops =>
    rcases c.whileStep?_cases p with ⟨_, same⟩ | ⟨later, turned, _⟩
    · exact same.symm
    · cases stops.symm.trans turned
  | @turn _ c next _ turned more ih =>
    rcases c.whileStep?_cases p with ⟨none, _⟩ | ⟨later, moved, _, same⟩
    · cases none.symm.trans turned
    · obtain rfl := Option.some.inj (turned.symm.trans moved)
      rw [ih, same]

theorem exists_loops_whileStep? (p : Char → Bool) (c : Cursor) :
    ∃ turns ≤ c.rest.length, Loops (whileStep? p) turns c (c.advanceWhile p) := by
  obtain ⟨turns, last, few, loops⟩ :=
    exists_loops (fun _ _ turned => length_rest_whileStep?_lt turned) c
  refine ⟨turns, few, ?_⟩
  rwa [← loops.eq_advanceWhile]

end Loops

theorem offset_le_skip (n : Nat) (c : Cursor) : c.offset ≤ (c.skip n).offset :=
  Nat.le_add_right _ _

theorem offset_lt_skip {n : Nat} {c : Cursor} (positive : 0 < n) (present : c.rest ≠ []) :
    c.offset < (c.skip n).offset := by
  rw [offset_skip]
  apply Nat.lt_add_of_pos_right
  apply utf8Length_pos
  simp only [ne_eq, List.take_eq_nil_iff, present, or_false]
  exact Nat.ne_of_gt positive

end Cursor

def IsProper : Except ScanError Token → Prop
  | .ok t => t.type ≠ .endOfInput
  | .error _ => True

theorem ItemAt.isProper {line : Nat} {text behind : List Char} {item : Except ScanError Token}
    (isItem : ItemAt line text behind item) : IsProper item := by
  cases isItem with
  | token longest matched => exact matched.type_ne_endOfInput
  | openString inside => trivial
  | stray noQuote noToken => trivial

theorem Lexeme.ne_nil_of_first? {text : List Char} {lexeme : Lexeme}
    (found : first? text = some lexeme) : text ≠ [] := by
  rintro rfl
  cases found

theorem Lexeme.isProper_item {start : Cursor} {lexeme : Lexeme}
    (found : first? start.rest = some lexeme) (line : Nat) :
    IsProper (lexeme.item (start.ahead lexeme.length) line) := by
  obtain ⟨c, behind, rest⟩ := List.exists_cons_of_ne_nil (ne_nil_of_first? found)
  obtain ⟨text, later, item, parts, isItem⟩ := exists_itemAt line c behind
  obtain ⟨again, first, length, worth⟩ := isItem.first?
  rw [← parts, ← rest, found] at first
  obtain rfl := Option.some.inj first
  rw [length, Cursor.ahead_length (rest.trans parts), worth]
  exact isItem.isProper

theorem HasItems.isProper {line : Nat} {text : List Char} {items : List (Except ScanError Token)}
    (has : HasItems line text items) : ∀ item ∈ items, IsProper item := by
  induction has with
  | gap longest => exact fun item member => absurd member List.not_mem_nil
  | piece longest isItem more ih => exact List.forall_mem_cons.mpr ⟨isItem.isProper, ih⟩

namespace TokenStream

def after : Nat → TokenStream → TokenStream
  | 0, s => s
  | calls + 1, s => after calls s.next.2

section Calls

variable {s later : TokenStream} {item : Except ScanError Token} {source : String}

/-- The three things that a call can do. What it looks for is behind the gap. -/
theorem next_cases (s : TokenStream) :
    let start := s.cursor.skip (gapLength s.cursor.rest)
    (s.ended = true ∧ s.next = (none, s)) ∨
      (start.rest = [] ∧ s.next = (some (.ok (Token.endOfInput start.line)), ⟨start, true⟩)) ∨
      ∃ lexeme, Lexeme.first? start.rest = some lexeme ∧ s.next =
        (some (lexeme.item (start.ahead lexeme.length) start.line),
          ⟨start.skip lexeme.length, false⟩) := by
  intro start
  cases running : s.ended with
  | true =>
    refine .inl ⟨rfl, ?_⟩
    simp only [next, running, ↓reduceIte]
  | false =>
    refine .inr ?_
    cases found : Lexeme.first? start.rest with
    | none =>
      refine .inl ⟨eq_nil_of_first?_eq_none found, ?_⟩
      simp only [next, running, start, found, Bool.false_eq_true, ↓reduceIte]
    | some lexeme =>
      refine .inr ⟨lexeme, rfl, ?_⟩
      simp only [next, running, start, found, Bool.false_eq_true, ↓reduceIte]

/-- Only a stream that has ended yields nothing, and it stays as it is. -/
theorem next_eq_none (nothing : s.next = (none, later)) : s.ended = true ∧ later = s := by
  rcases s.next_cases with ⟨ended, same⟩ | ⟨_, same⟩ | ⟨lexeme, _, same⟩
  · exact ⟨ended, (Prod.mk.inj (nothing.symm.trans same)).2⟩
  · cases nothing.symm.trans same
  · cases nothing.symm.trans same

/-- A call that yields something passes over a gap, by a loop that ends. Behind that it passes over
some text, or it has reached the end of the source and ends the stream. -/
theorem passes_of_next (yielded : s.next = (some item, later)) :
    ∃ turns ≤ s.cursor.rest.length, ∃ start, Cursor.Loops Cursor.gapStep? turns s.cursor start ∧
      (IsProper item → s.cursor.offset ≤ start.offset ∧ start.offset < later.cursor.offset) ∧
      (¬ IsProper item → start.isAtEnd = true ∧ later = ⟨start, true⟩) := by
  obtain ⟨turns, few, loops⟩ := s.cursor.exists_loops_gapStep?
  refine ⟨turns, few, _, loops, ?_⟩
  rcases s.next_cases with ⟨_, same⟩ | ⟨nothing, same⟩ | ⟨lexeme, found, same⟩
  · cases yielded.symm.trans same
  · cases yielded.symm.trans same
    exact ⟨fun proper => absurd rfl proper, fun _ => ⟨List.isEmpty_iff.mpr nothing, rfl⟩⟩
  · cases yielded.symm.trans same
    have further :=
      Cursor.offset_lt_skip (Lexeme.one_le_length found) (Lexeme.ne_nil_of_first? found)
    exact ⟨fun _ => ⟨Cursor.offset_le_skip _ _, further⟩,
      fun improper => absurd (Lexeme.isProper_item found _) improper⟩

/-- The stream stands in the source, and it has ended only where the source does. -/
structure IsIn (source : String) (s : TokenStream) : Prop where
  passed : ∃ n, s.cursor.HasPassed source n
  ends : s.ended = true → s.cursor.rest = []

theorem isIn_ofSource (source : String) : (ofSource source).IsIn source :=
  ⟨⟨0, .zero source⟩, nofun⟩

theorem IsIn.next (inside : s.IsIn source) : s.next.2.IsIn source := by
  obtain ⟨n, passed⟩ := inside.passed
  refine ⟨(nextBySlices?_eq passed).2, ?_⟩
  -- Only the call that finds nothing behind the gap sets the mark.
  rcases s.next_cases with ⟨_, same⟩ | ⟨atEnd, same⟩ | ⟨lexeme, _, same⟩
  · rw [same]
    exact inside.ends
  · rw [same]
    exact fun _ => atEnd
  · rw [same]
    exact nofun

theorem IsIn.after (inside : s.IsIn source) (calls : Nat) : (s.after calls).IsIn source := by
  induction calls generalizing s with
  | zero => exact inside
  | succ calls ih => exact ih inside.next

theorem IsIn.source_passed (inside : s.IsIn source) (ended : s.ended = true) :
    s.cursor.isAtEnd = true ∧ s.cursor.offset = source.utf8ByteSize := by
  obtain ⟨n, passed⟩ := inside.passed
  have nothing := inside.ends ended
  have whole := passed.offset_add
  rw [nothing] at whole
  exact ⟨List.isEmpty_iff.mpr nothing, whole⟩

theorem length_items_le_remaining (s : TokenStream) : s.items.length ≤ s.remaining := by
  induction s using items.induct with
  | case1 s later nothing =>
    rw [items_of_ended (next_eq_none nothing).1]
    exact Nat.zero_le _
  | case2 s item later yielded fewer ih =>
    rw [items_of_next yielded]
    exact Nat.lt_of_le_of_lt ih fewer

theorem ended_after_items (s : TokenStream) : (s.after s.items.length).ended = true := by
  induction s using items.induct with
  | case1 s later nothing =>
    obtain ⟨ended, _⟩ := next_eq_none nothing
    rwa [items_of_ended ended]
  | case2 s item later yielded fewer ih =>
    rw [items_of_next yielded, List.length_cons, after, yielded]
    exact ih

/-- Calls answer with the items, one after the other, and with nothing from there on. -/
theorem answers_eq (calls : Nat) (s : TokenStream) :
    answers calls s =
      (s.items.map some).take calls ++ List.replicate (calls - s.items.length) none := by
  induction calls generalizing s with
  | zero => simp [answers]
  | succ calls ih =>
    have first : answers (calls + 1) s = s.next.1 :: answers calls s.next.2 := rfl
    rw [first, ih]
    cases answer : s.next with
    | mk item later =>
      cases item with
      | none =>
        -- The stream stays as it is, so the calls to come are those of the same stream.
        obtain ⟨ended, rfl⟩ := next_eq_none answer
        simp [items_of_ended ended, List.replicate_succ]
      | some item =>
        rw [items_of_next answer, List.map_cons, List.take_succ_cons, List.length_cons,
          Nat.add_sub_add_right]
        rfl

end Calls

open Cursor in
/-- A token stream ends, and once. A call that yields an item passes over blanks and comments, by a
loop that ends, and over some text behind them, or it is the one call that yields the end of input
and stands at the end of the source. The loops over characters of a kind end too. So there are no
more items than characters, behind them comes the end of input, with an empty lexeme and the whole
source passed, and every call after that yields nothing. -/
theorem ends_once (source : String) :
    (∀ (s later : TokenStream) (item : Except ScanError Token), s.next = (some item, later) →
      ∃ turns ≤ s.cursor.rest.length, ∃ start, Loops gapStep? turns s.cursor start ∧
        (IsProper item → s.cursor.offset ≤ start.offset ∧ start.offset < later.cursor.offset) ∧
        (¬ IsProper item → start.isAtEnd = true ∧ later = ⟨start, true⟩)) ∧
    (∀ (p : Char → Bool) (c : Cursor),
      ∃ turns ≤ c.rest.length, Loops (whileStep? p) turns c (c.advanceWhile p)) ∧
    ∃ items : List (Except ScanError Token), items.length ≤ source.length ∧
      (∀ item ∈ items, IsProper item) ∧
      ((ofSource source).after (items.length + 1)).cursor.isAtEnd = true ∧
      ((ofSource source).after (items.length + 1)).cursor.offset = source.utf8ByteSize ∧
      ∀ more, answers (items.length + 1 + more) (ofSource source) =
        items.map some ++
          some (.ok ⟨.endOfInput, "", none, lineAfter firstLine source.toList⟩) ::
            List.replicate more none := by
  refine ⟨fun s later item => passes_of_next, exists_loops_whileStep?, ?_⟩
  obtain ⟨items, has⟩ := exists_hasItems source
  have whole := items_of_hasItems has
  have length : (ofSource source).items.length = items.length + 1 := by
    rw [whole, List.length_append, List.length_singleton]
  have few : items.length + 1 ≤ source.toList.length + 1 := by
    rw [← length]
    exact length_items_le_remaining (ofSource source)
  have ended := ended_after_items (ofSource source)
  rw [length] at ended
  obtain ⟨atEnd, used⟩ := ((isIn_ofSource source).after (items.length + 1)).source_passed ended
  refine ⟨items, ?_, has.isProper, atEnd, used, fun more => ?_⟩
  · rw [← String.length_toList]
    exact Nat.le_of_succ_le_succ few
  · have enough : ((ofSource source).items.map some).length ≤ items.length + 1 + more := by
      rw [List.length_map, length]
      exact Nat.le_add_right _ _
    rw [answers_eq, List.take_of_length_le enough, length, Nat.add_sub_cancel_left, whole,
      List.map_append, List.append_assoc]
    rfl

open Cursor in
/-- An unexpected character of two bytes in front of a token and a comment without a line feed. -/
theorem ends_once_unfinished_comment :
    let s := ofSource "é+//x"
    let comment := (s.after 2).cursor
    s.cursor.offset < (s.after 1).cursor.offset ∧
      (∃ turns ≤ 3, ∃ start, Loops gapStep? turns comment start ∧ start.isAtEnd = true ∧
        s.after 3 = ⟨start, true⟩) ∧
      ∃ items : List (Except ScanError Token), items.length ≤ 5 ∧ answers (items.length + 3) s =
        items.map some ++ [some (.ok ⟨.endOfInput, "", none, 1⟩), none, none] := by
  intro s comment
  obtain ⟨passes, _, items, few, _, _, _, answers⟩ := ends_once "é+//x"
  have first : s.next = (some (.error ⟨.unexpectedCharacter 'é', 1⟩), s.after 1) := rfl
  have third : (s.after 2).next = (some (.ok (Token.endOfInput 1)), s.after 3) := rfl
  obtain ⟨_, _, _, _, further, _⟩ := passes _ _ _ first
  obtain ⟨before, behind⟩ := further trivial
  obtain ⟨turns, bound, start, loops, _, last⟩ := passes _ _ _ third
  obtain ⟨atEnd, stopped⟩ := last fun proper => proper rfl
  exact ⟨Nat.lt_of_le_of_lt before behind, ⟨turns, bound, start, loops, atEnd, stopped⟩,
    items, few, answers 2⟩

end TokenStream

end Lox
