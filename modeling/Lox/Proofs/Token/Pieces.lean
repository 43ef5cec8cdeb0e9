import Lox.Proofs.Token.Lexeme

set_option autoImplicit false

namespace Lox

def TokenText (_ text : List Char) : Prop :=
  ∃ type, Matches text type

/-- What the text in front of `behind` is worth if it starts on the given line: a token that is not
longer, the rest of the source behind a quote, or a character that is neither. -/
inductive ItemAt (line : Nat) : List Char → List Char → Except ScanError Token → Prop
  | token {text behind : List Char} {type : TokenType} (longest : Longest TokenText text behind)
    (matched : Matches text type) :
    ItemAt line text behind (.ok ⟨type, String.ofList text, literalOf type text, line⟩)
  | openString {contents : List Char} (inside : '"' ∉ contents) :
    ItemAt line ('"' :: contents) [] (.error ⟨.unterminatedString, lineAfter line contents⟩)
  | stray {c : Char} {behind : List Char} (noQuote : c ≠ '"')
    (noToken : ∀ text rest, text ++ rest = c :: behind → ¬ TokenText rest text) :
    ItemAt line [c] behind (.error ⟨.unexpectedCharacter c, line⟩)

/-- A gap and the item behind it. -/
structure Piece where
  gap : List Char
  text : List Char
  item : Except ScanError Token

/-- The text that starts on the given line comes apart into the pieces and a last gap. -/
inductive Splits : Nat → List Char → List Piece → List Char → Prop
  | last {line : Nat} {gap : List Char} (longest : Longest Gap gap []) : Splits line gap [] gap
  | piece {line : Nat} {whole gap text behind last : List Char} {item : Except ScanError Token}
    {pieces : List Piece} (parts : gap ++ (text ++ behind) = whole)
    (longest : Longest Gap gap (text ++ behind))
    (isItem : ItemAt (lineAfter line gap) text behind item)
    (more : Splits (lineAfter line (gap ++ text)) behind pieces last) :
    Splits line whole (⟨gap, text, item⟩ :: pieces) last

namespace ItemAt

variable {line : Nat} {text behind : List Char} {item : Except ScanError Token}

theorem longest_of_first? {found : Lexeme} {type : TokenType}
    (first : Lexeme.first? (text ++ behind) = some found) (denoted : found.Denotes text type) :
    Longest TokenText text behind := by
  refine ⟨⟨type, denoted.matched⟩, ?_⟩
  intro other rest same ⟨otherType, matched⟩
  obtain ⟨again, found', covers⟩ := matched.first? rest
  rw [same, first] at found'
  obtain rfl := Option.some.inj found'
  have le := covers.length_le
  rwa [denoted.length] at le

theorem first?_of_longest {type : TokenType} (longest : Longest TokenText text behind)
    (matched : Matches text type) :
    ∃ found, Lexeme.first? (text ++ behind) = some found ∧ found.Denotes text type := by
  obtain ⟨found, first, covers⟩ := matched.first? behind
  refine ⟨found, first, covers.denotes ?_⟩
  have isToken := covers.isToken
  -- What is found is a token of some text, and by assumption that is no longer than this one.
  cases whole : text ++ behind with
  | nil =>
    rw [whole] at first
    cases first
  | cons c rest =>
    rw [whole] at first
    rcases Lexeme.first?_cons c rest with
      ⟨again, other, after, otherType, split, found', denoted⟩ | ⟨_, _, found'⟩ | ⟨_, found'⟩
    · rw [first] at found'
      obtain rfl := Option.some.inj found'
      have le := longest.longest other after (by rw [whole, split]) ⟨otherType, denoted.matched⟩
      have ge := covers.length_le
      have length := denoted.length
      omega
    · rw [first] at found'
      obtain rfl := Option.some.inj found'
      exact absurd isToken id
    · rw [first] at found'
      obtain rfl := Option.some.inj found'
      exact absurd isToken id

theorem first? (isItem : ItemAt line text behind item) :
    ∃ found, Lexeme.first? (text ++ behind) = some found ∧ found.length = text.length ∧
      found.item (String.ofList text) line = item := by
  cases isItem with
  | token longest matched =>
    obtain ⟨found, first, denoted⟩ := first?_of_longest longest matched
    exact ⟨found, first, denoted.length, denoted.item line⟩
  | openString inside =>
    rw [List.append_nil]
    exact ⟨_, Lexeme.first?_openString inside, rfl, rfl⟩
  | @stray c behind noQuote noToken =>
    rw [List.singleton_append]
    rcases Lexeme.first?_cons c behind with
      ⟨found, other, after, type, split, first, denoted⟩ | ⟨quote, _, _⟩ | ⟨_, first⟩
    · exact absurd ⟨type, denoted.matched⟩ (noToken other after split.symm)
    · exact absurd quote noQuote
    · exact ⟨_, first, rfl, rfl⟩

theorem text_ne_nil (isItem : ItemAt line text behind item) : text ≠ [] := by
  obtain ⟨found, first, length, _⟩ := isItem.first?
  have positive := Lexeme.one_le_length first
  rintro rfl
  rw [length] at positive
  exact absurd positive (by decide)

theorem unique {other rest : List Char} {otherItem : Except ScanError Token}
    (isItem : ItemAt line text behind item) (isOther : ItemAt line other rest otherItem)
    (same : other ++ rest = text ++ behind) :
    other = text ∧ rest = behind ∧ otherItem = item := by
  obtain ⟨found, first, length, worth⟩ := isItem.first?
  obtain ⟨found', first', length', worth'⟩ := isOther.first?
  rw [same, first] at first'
  obtain rfl := Option.some.inj first'
  obtain ⟨rfl, rfl⟩ := List.append_inj same (by rw [← length, ← length'])
  exact ⟨rfl, rfl, worth'.symm.trans worth⟩

end ItemAt

/-- At the start of every text but the empty one stands an item. -/
theorem exists_itemAt (line : Nat) (c : Char) (rest : List Char) :
    ∃ text behind item, c :: rest = text ++ behind ∧ ItemAt line text behind item := by
  rcases Lexeme.first?_cons c rest with
    ⟨found, text, behind, type, split, first, denoted⟩ | ⟨quote, inside, _⟩ | ⟨noQuote, first⟩
  · rw [split] at first
    have longest := ItemAt.longest_of_first? first denoted
    exact ⟨text, behind, _, split, .token longest denoted.matched⟩
  · subst quote
    exact ⟨_, [], _, (List.append_nil _).symm, .openString inside⟩
  · refine ⟨[c], rest, _, rfl, .stray noQuote ?_⟩
    intro text behind same ⟨type, matched⟩
    obtain ⟨found, found', covers⟩ := matched.first? behind
    rw [same, first] at found'
    obtain rfl := Option.some.inj found'
    exact covers.isToken

namespace Splits

theorem eq_flatMap {line : Nat} {text last : List Char} {pieces : List Piece}
    (split : Splits line text pieces last) :
    text = (pieces.flatMap fun piece => piece.gap ++ piece.text) ++ last := by
  induction split with
  | last longest => rfl
  | piece parts longest isItem more ih =>
    rw [← parts, List.flatMap_cons, List.append_assoc, List.append_assoc, ← ih]

theorem unique {line : Nat} {whole last final : List Char} {pieces others : List Piece}
    (split : Splits line whole pieces last) (other : Splits line whole others final) :
    others = pieces ∧ final = last := by
  induction split generalizing others final with
  | last longest =>
    cases other with
    | last _ => exact ⟨rfl, rfl⟩
    | piece parts longest' isItem more =>
      have same := longest.unique longest' (by rw [parts, List.append_nil])
      exact absurd (List.append_eq_nil_iff.mp same.2).1 isItem.text_ne_nil
  | piece parts longest isItem more ih =>
    cases other with
    | last longest' =>
      have same := longest.unique longest' (by rw [parts, List.append_nil])
      exact absurd (List.append_eq_nil_iff.mp same.2.symm).1 isItem.text_ne_nil
    | piece parts' longest' isItem' more' =>
      obtain ⟨rfl, same⟩ := longest.unique longest' (by rw [parts, parts'])
      obtain ⟨rfl, rfl, rfl⟩ := isItem.unique isItem' same
      obtain ⟨rfl, rfl⟩ := ih more'
      exact ⟨rfl, rfl⟩

end Splits

theorem exists_splits (line : Nat) (text : List Char) :
    ∃ pieces last, Splits line text pieces last := by
  have longest := longest_gap text
  have parts := List.take_append_drop (gapLength text) text
  generalize text.take (gapLength text) = gap at longest parts
  cases behind : text.drop (gapLength text) with
  | nil =>
    rw [behind] at longest parts
    rw [List.append_nil] at parts
    exact ⟨[], text, .last (parts ▸ longest)⟩
  | cons c rest =>
    obtain ⟨word, later, item, split, isItem⟩ := exists_itemAt (lineAfter line gap) c rest
    rw [behind, split] at longest parts
    have shorter : later.length < text.length := by
      have positive := List.length_pos_iff.mpr isItem.text_ne_nil
      rw [← parts, List.length_append, List.length_append]
      omega
    obtain ⟨pieces, last, more⟩ := exists_splits (lineAfter line (gap ++ word)) later
    exact ⟨⟨gap, word, item⟩ :: pieces, last, .piece parts longest isItem more⟩
termination_by text.length

namespace TokenStream

theorem items_of_next {s later : TokenStream} {item : Except ScanError Token}
    (yielded : s.next = (some item, later)) : s.items = item :: later.items := by
  rw [items]
  split
  next ended => rw [yielded] at ended; cases ended
  next item' later' yielded' =>
    rw [yielded] at yielded'
    cases yielded'
    rfl

theorem items_of_ended {s : TokenStream} (ended : s.ended = true) : s.items = [] := by
  have nothing : s.next = (none, s) := by
    simp only [next, ended, ↓reduceIte]
  rw [items]
  split
  next => rfl
  next item later yielded => rw [nothing] at yielded; cases yielded

variable {s : TokenStream} {gap : List Char}

/-- A stream passes over the longest gap. -/
theorem take_drop_gapLength {text behind : List Char} (longest : Longest Gap gap behind)
    (parts : gap ++ behind = text) :
    text.take (gapLength text) = gap ∧ text.drop (gapLength text) = behind := by
  apply longest.unique (longest_gap text)
  rw [List.take_append_drop, parts]

theorem next_of_itemAt {text behind : List Char} {item : Except ScanError Token}
    (running : s.ended = false) (parts : gap ++ (text ++ behind) = s.cursor.rest)
    (longest : Longest Gap gap (text ++ behind))
    (isItem : ItemAt (lineAfter s.cursor.line gap) text behind item) :
    ∃ later, s.next = (some item, later) ∧ later.ended = false ∧ later.cursor.rest = behind ∧
      later.cursor.line = lineAfter s.cursor.line (gap ++ text) := by
  have ⟨taken, dropped⟩ := take_drop_gapLength longest parts
  obtain ⟨found, first, length, worth⟩ := isItem.first?
  have passed : (text ++ behind).take text.length = text := List.take_left
  have left : (text ++ behind).drop text.length = behind := List.drop_left
  refine ⟨⟨(s.cursor.skip (gapLength s.cursor.rest)).skip found.length, false⟩, ?_, rfl, ?_, ?_⟩
  · simp only [next, running, Cursor.rest_skip, Cursor.line_skip, Cursor.ahead, dropped, taken,
      first, length, passed, worth, Bool.false_eq_true, ↓reduceIte]
  · rw [Cursor.rest_skip, Cursor.rest_skip, dropped, length, left]
  · rw [Cursor.line_skip, Cursor.line_skip, Cursor.rest_skip, dropped, taken, length, passed,
      lineAfter_append]

theorem next_of_last (running : s.ended = false) (longest : Longest Gap s.cursor.rest []) :
    ∃ later, s.next =
        (some (.ok (Token.endOfInput (lineAfter s.cursor.line s.cursor.rest))), later) ∧
      later.ended = true := by
  have ⟨taken, dropped⟩ := take_drop_gapLength longest (List.append_nil _)
  have nothing : Lexeme.first? [] = none := rfl
  refine ⟨⟨s.cursor.skip (gapLength s.cursor.rest), true⟩, ?_, rfl⟩
  simp only [next, running, Cursor.rest_skip, Cursor.line_skip, dropped, taken, nothing,
    Bool.false_eq_true, ↓reduceIte]

/-- The items to come are the items of the pieces of the text to come. -/
theorem items_of_splits {line : Nat} {text last : List Char} {pieces : List Piece}
    (split : Splits line text pieces last) (running : s.ended = false)
    (atLine : s.cursor.line = line) (atText : s.cursor.rest = text) :
    s.items = pieces.map Piece.item ++ [.ok (Token.endOfInput (lineAfter line text))] := by
  induction split generalizing s with
  | last longest =>
    subst atLine atText
    obtain ⟨later, yielded, ended⟩ := next_of_last running longest
    rw [items_of_next yielded, items_of_ended ended]
    rfl
  | piece parts longest isItem more ih =>
    subst atLine atText
    obtain ⟨later, yielded, running, rest, line⟩ := next_of_itemAt running parts longest isItem
    rw [items_of_next yielded, ih running line rest, ← parts, ← List.append_assoc,
      lineAfter_append _ (_ ++ _)]
    rfl

/-- A token stream is the longest-match scanner of its source and loses nothing: the source comes
apart in one way, and the items of the pieces are what the stream yields in front of the end of
input. -/
theorem items_eq_pieces (source : String) :
    ∃ pieces last, Splits firstLine source.toList pieces last ∧
      (∀ others final, Splits firstLine source.toList others final →
        others = pieces ∧ final = last) ∧
      source.toList = (pieces.flatMap fun piece => piece.gap ++ piece.text) ++ last ∧
      (ofSource source).items = pieces.map Piece.item ++
        [.ok (Token.endOfInput (lineAfter firstLine source.toList))] := by
  obtain ⟨pieces, last, split⟩ := exists_splits firstLine source.toList
  refine ⟨pieces, last, split, ?_, split.eq_flatMap, items_of_splits split rfl rfl rfl⟩
  intro others final other
  exact split.unique other

end TokenStream

end Lox
