import Lox.Proofs.Token.Sequence

set_option autoImplicit false

namespace Lox

def itemLine : Except ScanError Token → Nat
  | .ok t => t.line
  | .error e => e.line

def wholeText (pieces : List Piece) : List Char :=
  pieces.flatMap fun piece => piece.gap ++ piece.text

/-- The item with the given index among those of a source, and the text in front of its first
character. Behind all pieces stands the end of input, with the whole source in front of it. -/
inductive StandsBehind (source : String) : Nat → List Char → Except ScanError Token → Prop
  | piece {before behind : List Piece} {gap text last : List Char} {item : Except ScanError Token}
    (split : Splits firstLine source.toList (before ++ ⟨gap, text, item⟩ :: behind) last) :
    StandsBehind source before.length (wholeText before ++ gap) item
  | ending {pieces : List Piece} {last : List Char}
    (split : Splits firstLine source.toList pieces last) :
    StandsBehind source pieces.length source.toList (.ok (TokenStream.ending source))

/-- The text whose line feeds count for the line of an item: `front`, which is all that stands in
front of it, or for the end of input and a string that is never closed the whole source. -/
def counted (source : String) (front : List Char) : Except ScanError Token → List Char
  | .ok t => if t.type = .endOfInput then source.toList else front
  | .error ⟨.unexpectedCharacter _, _⟩ => front
  | .error ⟨.unterminatedString, _⟩ => source.toList

/-- The characters with which an item begins: a whole lexeme, a character that starts nothing, or
the quote of a string that is never closed. -/
def beginning : Except ScanError Token → List Char
  | .ok t => t.lexeme.toList
  | .error ⟨.unexpectedCharacter c, _⟩ => [c]
  | .error ⟨.unterminatedString, _⟩ => ['"']

theorem le_lineAfter (line : Nat) (text : List Char) : line ≤ lineAfter line text :=
  Nat.le_add_right _ _

section Pieces

variable {line : Nat} {text word behind gap last : List Char} {item : Except ScanError Token}
  {pieces before later : List Piece} {source : String}

/-- An item takes its line from the text that ends where it starts, and a string without an end from
the text that ends where it does. -/
theorem ItemAt.itemLine_eq {front : List Char} (source : String)
    (isItem : ItemAt (lineAfter line front) text behind item)
    (whole : front ++ (text ++ behind) = source.toList) :
    itemLine item = lineAfter line (counted source front item) := by
  cases isItem with
  | token longest matched =>
    rw [counted, if_neg matched.type_ne_endOfInput]
    rfl
  | @openString contents inside =>
    have noLineFeed : ('"' :: contents).count '\n' = contents.count '\n' :=
      List.count_cons_of_ne (by decide)
    rw [counted, ← whole, lineAfter_append, List.append_nil]
    simp only [itemLine, lineAfter, noLineFeed]
  | stray noQuote noToken => rfl

theorem ItemAt.beginning_prefix (isItem : ItemAt line text behind item) :
    beginning item <+: text := by
  cases isItem with
  | token longest matched => simp [beginning]
  | @openString contents inside => exact ⟨contents, rfl⟩
  | stray noQuote noToken => exact List.prefix_rfl

/-- An item is reported on one of the lines that its text reaches. -/
theorem ItemAt.itemLine_bounds (isItem : ItemAt line text behind item) :
    line ≤ itemLine item ∧ itemLine item ≤ lineAfter line text := by
  cases isItem with
  | token longest matched => exact ⟨Nat.le_refl _, le_lineAfter _ _⟩
  | @openString contents inside =>
    refine ⟨le_lineAfter _ _, ?_⟩
    have fewer : contents.count '\n' ≤ ('"' :: contents).count '\n' := List.count_le_count_cons
    simp only [itemLine, lineAfter]
    omega
  | stray noQuote noToken => exact ⟨Nat.le_refl _, le_lineAfter _ _⟩

namespace Splits

theorem exists_itemAt (split : Splits line text (before ++ ⟨gap, word, item⟩ :: later) last) :
    ∃ rest, wholeText before ++ gap ++ (word ++ rest) = text ∧
      ItemAt (lineAfter line (wholeText before ++ gap)) word rest item := by
  induction before generalizing line text with
  | nil =>
    cases split with
    | piece parts longest isItem more => exact ⟨_, parts, isItem⟩
  | cons first before ih =>
    cases split with
    | @piece _ _ firstGap firstText _ _ firstItem _ parts longest isItem more =>
      obtain ⟨rest, whole, isLater⟩ := ih more
      have front : wholeText (⟨firstGap, firstText, firstItem⟩ :: before) ++ gap =
          firstGap ++ firstText ++ (wholeText before ++ gap) := by
        rw [wholeText, List.flatMap_cons, List.append_assoc, wholeText]
      refine ⟨rest, ?_, ?_⟩
      · rw [front, List.append_assoc, whole, List.append_assoc, parts]
      · rwa [front, lineAfter_append]

/-- All items are reported within the text. -/
theorem itemLine_bounds (split : Splits line text pieces last) :
    ∀ piece ∈ pieces, line ≤ itemLine piece.item ∧ itemLine piece.item ≤ lineAfter line text := by
  induction split with
  | last longest => exact fun piece member => absurd member List.not_mem_nil
  | @piece line _ gap text behind _ item pieces parts longest isItem more ih =>
    have inside := isItem.itemLine_bounds
    have start := le_lineAfter line gap
    have within := le_lineAfter (lineAfter line (gap ++ text)) behind
    rw [← parts, ← List.append_assoc]
    rw [← lineAfter_append] at inside
    intro piece member
    rw [lineAfter_append _ (gap ++ text)]
    rcases List.mem_cons.mp member with rfl | other
    · exact ⟨Nat.le_trans start inside.1, Nat.le_trans inside.2 within⟩
    · have bounds := ih piece other
      have before := le_lineAfter line (gap ++ text)
      omega

/-- No item is reported above an earlier one. -/
theorem pairwise_itemLine (split : Splits line text pieces last) :
    pieces.Pairwise fun first second => itemLine first.item ≤ itemLine second.item := by
  induction split with
  | last longest => exact .nil
  | piece parts longest isItem more ih =>
    refine List.pairwise_cons.mpr ⟨fun piece isLater => ?_, ih⟩
    have inside := isItem.itemLine_bounds
    have below := more.itemLine_bounds piece isLater
    rw [lineAfter_append] at below
    exact Nat.le_trans inside.2 below.1

end Splits

theorem StandsBehind.itemLine_eq {i : Nat} {front : List Char}
    (stands : StandsBehind source i front item) :
    itemLine item = lineAfter firstLine (counted source front item) := by
  cases stands with
  | piece split =>
    obtain ⟨rest, whole, isItem⟩ := split.exists_itemAt
    exact isItem.itemLine_eq source whole
  | ending split =>
    rw [counted, ite_self]
    rfl

theorem StandsBehind.prefix_toList {i : Nat} {front : List Char}
    (stands : StandsBehind source i front item) :
    front ++ beginning item <+: source.toList := by
  cases stands with
  | piece split =>
    obtain ⟨rest, whole, isItem⟩ := split.exists_itemAt
    obtain ⟨more, text⟩ := isItem.beginning_prefix
    refine ⟨more ++ rest, ?_⟩
    rw [← whole, ← text]
    simp only [List.append_assoc]
  | ending split => exact ⟨[], by simp [beginning, TokenStream.ending, Token.endOfInput]⟩

end Pieces

namespace TokenStream

variable {source : String}

/-- The items of a stream are those that stand in the source, in their order. -/
theorem exists_standsBehind {i : Nat} {item : Except ScanError Token}
    (present : (ofSource source).items[i]? = some item) :
    ∃ front, StandsBehind source i front item := by
  obtain ⟨pieces, last, split⟩ := Lox.exists_splits firstLine source.toList
  rw [items_of_splits split rfl rfl rfl] at present
  by_cases inside : i < pieces.length
  · rw [List.getElem?_append_left (by rwa [List.length_map]), List.getElem?_map,
      List.getElem?_eq_getElem inside] at present
    obtain rfl := Option.some.inj present
    have parts : pieces.take i ++ pieces[i] :: pieces.drop (i + 1) = pieces := by
      rw [← List.drop_eq_getElem_cons inside, List.take_append_drop]
    have length : (pieces.take i).length = i := List.length_take_of_le (Nat.le_of_lt inside)
    rw [← parts] at split
    have stands := StandsBehind.piece split
    rw [length] at stands
    exact ⟨_, stands⟩
  · rw [List.getElem?_append_right (by rw [List.length_map]; omega), List.length_map,
      List.getElem?_singleton] at present
    split at present
    next last =>
      obtain rfl := Option.some.inj present
      have index : pieces.length = i := by omega
      have stands := StandsBehind.ending split
      rw [index] at stands
      exact ⟨_, stands⟩
    next => cases present

theorem itemLine_bounds (source : String) :
    ∀ item ∈ (ofSource source).items,
      firstLine ≤ itemLine item ∧ itemLine item ≤ lineAfter firstLine source.toList := by
  obtain ⟨pieces, last, split⟩ := Lox.exists_splits firstLine source.toList
  rw [items_of_splits split rfl rfl rfl]
  intro item member
  rcases List.mem_append.mp member with inPieces | isEnding
  · obtain ⟨piece, isPiece, rfl⟩ := List.mem_map.mp inPieces
    exact split.itemLine_bounds piece isPiece
  · rw [List.mem_singleton.mp isEnding]
    exact ⟨le_lineAfter _ _, Nat.le_refl _⟩

theorem pairwise_itemLine (source : String) :
    ((ofSource source).items.map itemLine).Pairwise (· ≤ ·) := by
  obtain ⟨pieces, last, split⟩ := Lox.exists_splits firstLine source.toList
  rw [items_of_splits split rfl rfl rfl, List.map_append, List.map_map, List.pairwise_append]
  refine ⟨List.pairwise_map.mpr split.pairwise_itemLine, List.pairwise_singleton _ _, ?_⟩
  intro line inPieces other isEnding
  obtain ⟨piece, isPiece, rfl⟩ := List.mem_map.mp inPieces
  rw [List.mem_singleton.mp isEnding]
  exact (split.itemLine_bounds piece isPiece).2

end TokenStream

end Lox
