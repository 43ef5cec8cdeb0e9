import Lox.Proofs.Cursor.Slice
import Lox.Proofs.Token.Gap
import Lox.Proofs.Token.Lexeme

set_option autoImplicit false

namespace Lox

section Tables

variable {α : Type} {a : Char} {value : α} {table : List (Char × α)}

theorem mem_of_lookup_eq_some (found : table.lookup a = some value) : (a, value) ∈ table := by
  obtain ⟨before, behind, rfl, _⟩ := List.lookup_eq_some_iff.mp found
  exact List.mem_append_right before List.mem_cons_self

theorem not_mem_of_lookup_eq_none (notFound : table.lookup a = none) :
    a ∉ table.map Prod.fst := by
  intro member
  obtain ⟨entry, listed, rfl⟩ := List.mem_map.mp member
  exact absurd (List.lookup_eq_none_iff.mp notFound entry listed) (by simp)

end Tables

namespace Cursor

/-- One turn of the loop over blanks and comments; `none` if neither is next. A comment is passed
over up to the end of its line. -/
def gapStep? (c : Cursor) : Option Cursor :=
  match c.peek with
  | none => none
  | some a =>
    if isBlank a then some c.next.2
    else if a = '/' ∧ c.peekNext = some '/' then some (c.advanceWhile (· ≠ '\n'))
    else none

/-- A turn passes over the front of the gap that is next, and there is one as long as there is a
gap. -/
theorem gapStep?_cases (c : Cursor) :
    (c.gapStep? = none ∧ gapLength c.rest = 0) ∨
      ∃ n, 0 < n ∧ c.gapStep? = some (c.skip n) ∧
        gapLength c.rest = n + gapLength (c.skip n).rest ∧ n ≤ c.rest.length := by
  cases rest : c.rest with
  | nil =>
    refine .inl ⟨?_, rfl⟩
    rw [gapStep?, peek_eq_head?, rest]
    rfl
  | cons a later =>
    have next : c.peek = some a := by rw [peek_eq_head?, rest]; rfl
    have second := peekNext_of_rest rest
    by_cases blank : isBlank a = true
    · refine .inr ⟨1, Nat.one_pos, ?_, ?_, Nat.le_add_left _ _⟩
      · simp only [gapStep?, next, if_pos blank]
        rfl
      · rw [gapLength_blank ((isBlank_iff a).mp blank), rest_skip, rest]
        exact Nat.add_comm _ _
    by_cases slashes : a = '/' ∧ later.head? = some '/'
    -- Both slashes are passed over with the comment, since neither is a line feed.
    · obtain ⟨rfl, head⟩ := slashes
      obtain ⟨tail, rfl⟩ := List.head?_eq_some_iff.mp head
      have taken : c.rest.takeWhile (· ≠ '\n') = '/' :: '/' :: tail.takeWhile (· ≠ '\n') := by
        rw [rest]
        rfl
      have left : (c.advanceWhile (· ≠ '\n')).rest = tail.dropWhile (· ≠ '\n') := by
        rw [advanceWhile_rest, rest]
        rfl
      refine .inr ⟨(c.rest.takeWhile (· ≠ '\n')).length, ?_, ?_, ?_, ?_⟩
      · rw [taken]
        exact Nat.succ_pos _
      · simp only [gapStep?, next, second, head, if_neg blank]
        rfl
      · change _ = _ + gapLength (c.advanceWhile (· ≠ '\n')).rest
        rw [left, taken, gapLength_slashes]
        rfl
      · rw [← rest]
        exact (List.takeWhile_sublist _).length_le
    · refine .inl ⟨?_, gapLength_other (mt (isBlank_iff a).mpr blank) slashes⟩
      simp only [gapStep?, next, second, if_neg blank, if_neg slashes]

theorem length_rest_gapStep?_lt {c later : Cursor} (turn : c.gapStep? = some later) :
    later.rest.length < c.rest.length := by
  rcases c.gapStep?_cases with ⟨none, _⟩ | ⟨n, moves, moved, _, within⟩
  · cases none.symm.trans turn
  · obtain rfl := Option.some.inj (moved.symm.trans turn)
    rw [rest_skip, List.length_drop]
    omega

def skipGap (c : Cursor) : Cursor :=
  match turn : c.gapStep? with
  | none => c
  | some later =>
    have : later.rest.length < c.rest.length := length_rest_gapStep?_lt turn
    later.skipGap
termination_by c.rest.length

theorem skipGap_of_none {c : Cursor} (ends : c.gapStep? = none) : c.skipGap = c := by
  rw [skipGap]
  split
  next => rfl
  next later turn => cases ends.symm.trans turn

theorem skipGap_of_some {c later : Cursor} (turn : c.gapStep? = some later) :
    c.skipGap = later.skipGap := by
  rw [skipGap]
  split
  next ends => cases ends.symm.trans turn
  next other same =>
    obtain rfl := Option.some.inj (same.symm.trans turn)
    rfl

theorem skipGap_eq (c : Cursor) : c.skipGap = c.skip (gapLength c.rest) := by
  induction c using skipGap.induct with
  | case1 c ends =>
    rcases c.gapStep?_cases with ⟨_, length⟩ | ⟨n, _, moved, _⟩
    · rw [skipGap_of_none ends, length]
      rfl
    · cases ends.symm.trans moved
  | case2 c later turn _ ih =>
    rcases c.gapStep?_cases with ⟨none, _⟩ | ⟨n, _, moved, length, _⟩
    · cases none.symm.trans turn
    · obtain rfl := Option.some.inj (moved.symm.trans turn)
      rw [skipGap_of_some turn, ih, skip_skip, length]

def makeToken? (type : TokenType) (start stop : Cursor) (literal : Option Literal) :
    Option (Except ScanError Token × Cursor) := do
  let lexeme ← start.sliceUntil? stop
  return (.ok ⟨type, lexeme, literal, start.line⟩, stop)

def string? (start contents : Cursor) : Option (Except ScanError Token × Cursor) := do
  let close := contents.advanceWhile (· ≠ '"')
  let text ← contents.sliceUntil? close
  let (closed, stop) := close.nextIfEq '"'
  if closed then makeToken? .string start stop (some (.string text))
  else return (.error ⟨.unterminatedString, stop.line⟩, stop)

/-- Passes over digits, and over a point and more digits if they follow. -/
def skipNumeral (c : Cursor) : Cursor :=
  let whole := c.advanceWhile Char.isDigit
  if whole.peek = some '.' ∧ whole.peekNext.any Char.isDigit then
    whole.next.2.advanceWhile Char.isDigit
  else whole

def number? (start later : Cursor) : Option (Except ScanError Token × Cursor) := do
  let stop := later.skipNumeral
  let digits ← start.sliceUntil? stop
  makeToken? .number start stop (some (.number (.ofDecimal (.ofText digits.toList))))

def word? (start later : Cursor) : Option (Except ScanError Token × Cursor) := do
  let stop := later.advanceWhile isWordChar
  let letters ← start.sliceUntil? stop
  makeToken? ((TokenType.keyword? letters).getD .identifier) start stop none

/-- What begins at `start` with the character `first`, behind which `later` stands. -/
def item? (start : Cursor) (first : Char) (later : Cursor) :
    Option (Except ScanError Token × Cursor) :=
  match singles.lookup first with
  | some type => makeToken? type start later none
  | none =>
    match pairs.lookup first with
    | some (alone, joined) =>
      let (isJoined, stop) := later.nextIfEq '='
      makeToken? (if isJoined then joined else alone) start stop none
    | none =>
      if first = '"' then string? start later
      else if first.isDigit then number? start later
      else if isWordStart first then word? start later
      else some (.error ⟨.unexpectedCharacter first, start.line⟩, later)

end Cursor

/-- The next item by the operations of the cursor. The outer option is `none` if a slice fails. -/
def TokenStream.nextBySlices? (s : TokenStream) :
    Option (Option (Except ScanError Token) × TokenStream) :=
  if s.ended then some (none, s)
  else
    let start := s.cursor.skipGap
    match start.next with
    | (none, stop) => some (some (.ok (Token.endOfInput stop.line)), ⟨stop, true⟩)
    | (some first, later) => do
      let (item, stop) ← start.item? first later
      return (some item, ⟨stop, false⟩)

def TokenStream.answersBySlices? : Nat → TokenStream →
    Option (List (Option (Except ScanError Token)))
  | 0, _ => some []
  | n + 1, s => do
    let (item, later) ← s.nextBySlices?
    let items ← answersBySlices? n later
    return item :: items

namespace Cursor

section Items

variable {source : String} {start c : Cursor} {a : Char} {later : List Char} {i : Nat}

theorem makeToken?_skip (passed : start.HasPassed source i) (type : TokenType) (n : Nat)
    (literal : Option Literal) :
    makeToken? type start (start.skip n) literal =
      some (.ok ⟨type, start.ahead n, literal, start.line⟩, start.skip n) := by
  rw [makeToken?, passed.sliceUntil?_skip n]
  rfl

theorem isEmpty_takeWhile (p : Char → Bool) (text : List Char) :
    (text.takeWhile p).isEmpty = !text.head?.any p := by
  cases text with
  | nil => rfl
  | cons c rest => cases inside : p c <;> simp [inside]

theorem ahead_length {text behind : List Char} (rest : c.rest = text ++ behind) :
    c.ahead text.length = String.ofList text := by
  rw [ahead, rest, List.take_left]

theorem skipNumeral_eq (c : Cursor) : c.skipNumeral = c.skip (numeral c.rest).length := by
  have whole := advanceWhile_rest Char.isDigit c
  by_cases point : (c.rest.dropWhile Char.isDigit).head? = some '.'
  · obtain ⟨tail, point⟩ := List.head?_eq_some_iff.mp point
    have rest : (c.advanceWhile Char.isDigit).rest = '.' :: tail := whole.trans point
    have next : (c.advanceWhile Char.isDigit).peek = some '.' := by rw [peek_eq_head?, rest]; rfl
    have behind : ((c.advanceWhile Char.isDigit).skip 1).rest = tail := by
      rw [rest_skip, rest]
      rfl
    simp only [skipNumeral, numeral, point, next, peekNext_of_rest rest, isEmpty_takeWhile]
    -- The point belongs to the numeral if a digit is behind it.
    cases fraction : tail.head?.any Char.isDigit with
    | false => rfl
    | true =>
      have length : (c.rest.takeWhile Char.isDigit ++ '.' :: tail.takeWhile Char.isDigit).length =
          (c.rest.takeWhile Char.isDigit).length + (1 + (tail.takeWhile Char.isDigit).length) := by
        rw [List.length_append, List.length_cons]
        omega
      change ((c.advanceWhile Char.isDigit).skip 1).advanceWhile Char.isDigit =
        c.skip (c.rest.takeWhile Char.isDigit ++ '.' :: tail.takeWhile Char.isDigit).length
      rw [length, advanceWhile, behind, advanceWhile, skip_skip, skip_skip]
  · have noPoint : (c.advanceWhile Char.isDigit).peek ≠ some '.' := by
      rwa [peek_eq_head?, whole]
    have digits : numeral c.rest = c.rest.takeWhile Char.isDigit := by
      rw [numeral]
      split
      next tail same => exact absurd (congrArg List.head? same) point
      next => rfl
    simp only [skipNumeral, noPoint, digits, false_and, ↓reduceIte]
    rfl

def Takes (start : Cursor) (item : Option (Except ScanError Token × Cursor)) : Prop :=
  ∃ lexeme, Lexeme.first? start.rest = some lexeme ∧
    item = some (lexeme.item (start.ahead lexeme.length) start.line, start.skip lexeme.length)

variable (passed : start.HasPassed source i) (rest : start.rest = a :: later)

include passed rest

theorem takes_single {type : TokenType} (listed : (a, type) ∈ singles) :
    start.Takes (makeToken? type start (start.skip 1) none) := by
  refine ⟨.symbol type 1, ?_, makeToken?_skip passed type 1 none⟩
  rw [rest, Lexeme.first?_symbol (symbol?_single listed)]

theorem takes_pair {alone joined : TokenType} (listed : (a, alone, joined) ∈ pairs) :
    start.Takes
      (let (isJoined, stop) := (start.skip 1).nextIfEq '='
      makeToken? (if isJoined then joined else alone) start stop none) := by
  have next : (start.skip 1).peek = later.head? := by
    rw [peek_eq_head?, rest_skip, rest]
    rfl
  by_cases equals : later.head? = some '='
  · obtain ⟨behind, rfl⟩ := List.head?_eq_some_iff.mp equals
    refine ⟨.symbol joined 2, ?_, ?_⟩
    · rw [rest, Lexeme.first?_symbol (symbol?_joined listed)]
    · simp only [nextIfEq, next, equals, ↓reduceIte, skip_skip]
      exact makeToken?_skip passed joined 2 none
  · refine ⟨.symbol alone 1, ?_, ?_⟩
    · rw [rest, Lexeme.first?_symbol (symbol?_alone listed equals)]
    · simp only [nextIfEq, next, equals, ↓reduceIte]
      exact makeToken?_skip passed alone 1 none

theorem takes_number (digit : a.isDigit = true) : start.Takes (number? start (start.skip 1)) := by
  have isDigit := isDigit_iff.mp digit
  obtain ⟨behind, parts, _⟩ := matches_numeral later isDigit
  have whole : numeral (a :: later) = a :: numeral later :=
    numeral_append (List.forall_mem_singleton.mpr isDigit)
  have stop : (start.skip 1).skipNumeral = start.skip (numeral (a :: later)).length := by
    rw [skipNumeral_eq, rest_skip, rest, skip_skip, whole, List.length_cons, Nat.add_comm]
    rfl
  have digits := ahead_length (rest.trans parts)
  refine ⟨.number (numeral (a :: later)), ?_, ?_⟩
  · rw [rest, Lexeme.first?_number isDigit]
  · rw [number?, stop, passed.sliceUntil?_skip]
    change makeToken? .number start _ _ = _
    rw [makeToken?_skip passed, digits, String.toList_ofList, Lexeme.length, digits]
    rfl

theorem takes_word (isStart : isWordStart a = true) : start.Takes (word? start (start.skip 1)) := by
  have parts : a :: later = (a :: later.takeWhile isWordChar) ++ later.dropWhile isWordChar := by
    rw [List.cons_append, List.takeWhile_append_dropWhile]
  have letters := ahead_length (rest.trans parts)
  have stop : (start.skip 1).advanceWhile isWordChar =
      start.skip (a :: later.takeWhile isWordChar).length := by
    rw [advanceWhile, rest_skip, rest, skip_skip, List.length_cons, Nat.add_comm]
    rfl
  refine ⟨.word (a :: later.takeWhile isWordChar), ?_, ?_⟩
  · rw [rest, Lexeme.first?_word (isWordStart_iff.mp isStart)]
  · rw [word?, stop, passed.sliceUntil?_skip]
    change makeToken? _ start _ _ = _
    rw [makeToken?_skip passed, letters, Lexeme.length, letters]
    rfl

omit rest in
/-- The contents of a string are the text up to the next quote, if there is one. -/
theorem string?_eq {contents behind : List Char} (rest : start.rest = '"' :: (contents ++ behind))
    (inside : '"' ∉ contents) (stops : behind.takeWhile (· ≠ '"') = []) :
    string? start (start.skip 1) =
      if behind.head? = some '"' then
        makeToken? .string start (start.skip (contents.length + 2))
          (some (.string (String.ofList contents)))
      else
        some (.error ⟨.unterminatedString, (start.skip (contents.length + 1)).line⟩,
          start.skip (contents.length + 1)) := by
  have contentsRest : (start.skip 1).rest = contents ++ behind := by
    rw [rest_skip, rest]
    rfl
  have taken : (contents ++ behind).takeWhile (· ≠ '"') = contents := by
    rw [takeWhile_quote _ inside, stops, List.append_nil]
  have close : (start.skip 1).advanceWhile (· ≠ '"') = start.skip (contents.length + 1) := by
    rw [advanceWhile, contentsRest, taken, skip_skip, Nat.add_comm]
  have slice := (passed.skip 1).sliceUntil?_skip contents.length
  rw [ahead_length contentsRest, skip_skip, Nat.add_comm] at slice
  have next : (start.skip (contents.length + 1)).peek = behind.head? := by
    rw [peek_eq_head?, rest_skip, rest, List.drop_succ_cons, List.drop_left]
  rw [string?, close, slice]
  simp only [Option.bind_eq_bind, Option.bind_some, nextIfEq, next, skip_skip]
  split <;> rfl

theorem takes_string (quote : a = '"') : start.Takes (string? start (start.skip 1)) := by
  subst quote
  by_cases closed : '"' ∈ later
  · obtain ⟨contents, behind, rfl, inside⟩ := List.eq_append_cons_of_mem closed
    refine ⟨.string contents, ?_, ?_⟩
    · rw [rest, Lexeme.first?_string inside]
    · rw [string?_eq passed rest inside rfl]
      exact makeToken?_skip passed .string _ _
  · have whole : start.rest = '"' :: (later ++ []) := by rw [rest, List.append_nil]
    have line : (start.skip (later.length + 1)).line = lineAfter start.line later := by
      rw [line_skip, rest, List.take_succ_cons, List.take_length]
      simp only [lineAfter, List.count_cons_of_ne (show '"' ≠ '\n' by decide)]
    refine ⟨.openString later, ?_, ?_⟩
    · rw [rest, Lexeme.first?_openString closed]
    · rw [string?_eq passed whole closed rfl, line]
      rfl

/-- What is scanned by operations is what stands there in the lexical grammar. -/
theorem takes_item : start.Takes (start.item? a (start.skip 1)) := by
  rw [item?]
  split
  next type found =>
    exact takes_single passed rest (mem_of_lookup_eq_some found)
  next noSingle =>
    split
    next alone joined found => exact takes_pair passed rest (mem_of_lookup_eq_some found)
    next noPair =>
      split
      next quote => exact takes_string passed rest quote
      next noQuote =>
        split
        next digit => exact takes_number passed rest digit
        next noDigit =>
          split
          next isStart => exact takes_word passed rest isStart
          next noStart =>
            have noSymbol : a ∉ symbolStarts := by
              intro member
              rcases List.mem_append.mp member with member | member
              · exact not_mem_of_lookup_eq_none noSingle member
              · exact not_mem_of_lookup_eq_none noPair member
            refine ⟨.stray a, ?_, rfl⟩
            rw [rest, Lexeme.first?_stray noSymbol noQuote (mt isDigit_iff.mpr noDigit)
              (mt isWordStart_iff.mpr noStart)]

end Items

theorem skip_of_rest_eq_nil {c : Cursor} (ends : c.rest = []) (n : Nat) : c.skip n = c := by
  simp only [skip, ends, List.take_nil, List.drop_nil, utf8Length_nil, lineAfter_nil, Nat.add_zero]
  rw [← ends]

end Cursor

namespace TokenStream

section Runs

variable {source : String} {s : TokenStream} {i : Nat}

/-- No slice fails in a call of `next`, which leads from one position of the source to another. -/
theorem nextBySlices?_eq (passed : s.cursor.HasPassed source i) :
    s.nextBySlices? = some s.next ∧ ∃ j, s.next.2.cursor.HasPassed source j := by
  cases running : s.ended with
  | true =>
    simp only [nextBySlices?, next, running, ↓reduceIte]
    exact ⟨trivial, i, passed⟩
  | false =>
    have gap := s.cursor.skipGap_eq
    have start := passed.skip (gapLength s.cursor.rest)
    simp only [nextBySlices?, next, running, gap, Bool.false_eq_true, ↓reduceIte]
    generalize s.cursor.skip (gapLength s.cursor.rest) = c at start ⊢
    cases rest : c.rest with
    | nil =>
      have ends : c.next = (none, c) := by
        rw [Cursor.next, Cursor.peek_eq_head?, rest, Cursor.skip_of_rest_eq_nil rest]
        rfl
      rw [ends]
      exact ⟨rfl, _, start⟩
    | cons a later =>
      have begins : c.next = (some a, c.skip 1) := by
        rw [Cursor.next, Cursor.peek_eq_head?, rest]
        rfl
      obtain ⟨lexeme, found, taken⟩ := Cursor.takes_item start rest
      rw [begins, ← rest, found]
      simp only [taken]
      exact ⟨rfl, _, start.skip lexeme.length⟩

theorem answersBySlices?_eq (passed : s.cursor.HasPassed source i) (n : Nat) :
    answersBySlices? n s = some (answers n s) := by
  induction n generalizing s i with
  | zero => rfl
  | succ n ih =>
    obtain ⟨next, j, later⟩ := nextBySlices?_eq passed
    rw [answersBySlices?, next]
    simp only [Option.bind_eq_bind, Option.bind_some, ih later]
    rfl

end Runs

end TokenStream

open Cursor in
/-- Between two positions of one source there is a slice unless the first is past the second. It is
the text of the characters between them, slices that meet make one slice, and calls of `next` spell
it. So no slice that scanning takes fails, and it may take its texts by slices. -/
theorem slices_between_reached (source : String) :
    (∀ m c : Cursor, m.Reached source → c.Reached source →
      m.sliceUntil? c = m.slice? c ∧ (m.sliceUntil? c = none ↔ c.offset < m.offset) ∧
      (m.offset ≤ c.offset → ∃ front middle behind, source = front ++ middle ++ behind ∧
        m.offset = front.utf8ByteSize ∧ c.offset = (front ++ middle).utf8ByteSize ∧
        m.sliceUntil? c = some middle ∧ ∀ clones,
          (Walk.mk m clones).answers (List.replicate middle.length .next) =
              middle.toList.map (fun a => .char (some a)) ∧
            (Walk.mk m clones).after (List.replicate middle.length .next) = ⟨c, clones⟩) ∧
      ∀ b : Cursor, b.Reached source → m.offset ≤ b.offset → b.offset ≤ c.offset →
        ∃ s t, m.sliceUntil? b = some s ∧ b.sliceUntil? c = some t ∧
          m.sliceUntil? c = some (s ++ t)) ∧
    ∀ n, TokenStream.answersBySlices? n (.ofSource source) =
      some (TokenStream.answers n (.ofSource source)) := by
  refine ⟨fun m c mReached cReached => ?_, fun n => ?_⟩
  · obtain ⟨i, before⟩ := mReached.exists_hasPassed
    obtain ⟨k, later⟩ := cReached.exists_hasPassed
    rw [← before.slice?_eq_sliceUntil? later]
    refine ⟨rfl, ?_, fun ordered => ?_, fun b bReached lower upper => ?_⟩
    · rw [slice?, ← Nat.not_le]
      split <;> simp_all
    · obtain ⟨front, middle, behind, parts, first, last, slice⟩ :=
        before.exists_parts later ((before.offset_le_iff later).mp ordered)
      exact ⟨front, middle, behind, parts, first, last, slice,
        before.answers_next_of_slice? later slice⟩
    · obtain ⟨j, between⟩ := bReached.exists_hasPassed
      rw [← before.slice?_eq_sliceUntil? between, ← between.slice?_eq_sliceUntil? later]
      exact before.exists_slices between later ((before.offset_le_iff between).mp lower)
        ((between.offset_le_iff later).mp upper)
  · exact TokenStream.answersBySlices?_eq (.zero source) n

open Cursor in
/-- Positions between characters of two, three and one bytes. -/
theorem slices_between_reached_multibyte :
    let source := "é€x"
    let a := ((Walk.ofSource source).after [.next]).cursor
    let b := ((Walk.ofSource source).after [.drain]).cursor
    let c := ((Walk.ofSource source).after [.save, .drain, .restore 0, .nth 1]).cursor
    a.offset = 2 ∧ c.offset = 5 ∧ b.offset = 6 ∧ b.sliceUntil? c = none ∧
      ∃ s t, a.sliceUntil? c = some s ∧ c.sliceUntil? b = some t ∧
        a.sliceUntil? b = some (s ++ t) := by
  intro source a b c
  have slices := (slices_between_reached source).1
  obtain ⟨_, fails, _⟩ := slices b c ⟨_, rfl⟩ ⟨_, rfl⟩
  obtain ⟨_, _, _, meets⟩ := slices a b ⟨_, rfl⟩ ⟨_, rfl⟩
  have first : a.offset = 2 := by decide
  have second : c.offset = 5 := by decide
  have third : b.offset = 6 := by decide
  exact ⟨first, second, third, fails.mpr (by omega),
    meets c ⟨_, rfl⟩ (by omega) (by omega)⟩

end Lox
