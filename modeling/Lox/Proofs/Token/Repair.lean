import Lox.Proofs.Token.Sequence

set_option autoImplicit false

namespace Lox

theorem length_behind_lt {text : List Char} {found : Lexeme}
    (first : Lexeme.first? (text.drop (gapLength text)) = some found) :
    ((text.drop (gapLength text)).drop found.length).length < text.length := by
  have taken := Lexeme.one_le_length first
  have present : (text.drop (gapLength text)).length ≠ 0 := by
    intro empty
    rw [List.length_eq_zero_iff.mp empty] at first
    cases first
  simp only [List.length_drop] at present ⊢
  omega

def piecesOf (line : Nat) (text : List Char) : List Piece × List Char :=
  let gap := text.take (gapLength text)
  let start := text.drop (gapLength text)
  match first : Lexeme.first? start with
  | none => ([], gap)
  | some found =>
    have := length_behind_lt first
    let word := start.take found.length
    let rest := piecesOf (lineAfter line (gap ++ word)) (start.drop found.length)
    (⟨gap, word, found.item (String.ofList word) (lineAfter line gap)⟩ :: rest.1, rest.2)
termination_by text.length
decreasing_by assumption

/-- Spaces in the place of all characters but line feeds. -/
def spaced (text : List Char) : List Char :=
  text.map fun c => if c = '\n' then '\n' else ' '

/-- The text of a piece with blanks in the place of a fault. A string without an end keeps its line
feeds. -/
def Piece.repaired (piece : Piece) : List Char :=
  match piece.item with
  | .ok _ => piece.gap ++ piece.text
  | .error ⟨.unexpectedCharacter _, _⟩ => piece.gap ++ [' ']
  | .error ⟨.unterminatedString, _⟩ => piece.gap ++ spaced piece.text

/-- A source text with blanks in the place of its faults. -/
def repaired (source : String) : String :=
  let (pieces, last) := piecesOf firstLine source.toList
  String.ofList (pieces.flatMap Piece.repaired ++ last)

theorem eq_nil_of_first?_eq_none {text : List Char} (nothing : Lexeme.first? text = none) :
    text = [] := by
  cases text with
  | nil => rfl
  | cons c rest =>
    obtain ⟨text, behind, item, split, isItem⟩ := exists_itemAt firstLine c rest
    obtain ⟨found, first, _⟩ := isItem.first?
    rw [← split, nothing] at first
    cases first

/-- What is found at the start of a text is an item there. -/
theorem itemAt_of_first? {text : List Char} {found : Lexeme}
    (first : Lexeme.first? text = some found) (line : Nat) :
    ItemAt line (text.take found.length) (text.drop found.length)
      (found.item (String.ofList (text.take found.length)) line) := by
  cases text with
  | nil => cases first
  | cons c rest =>
    obtain ⟨word, behind, item, split, isItem⟩ := exists_itemAt line c rest
    obtain ⟨again, first', length, worth⟩ := isItem.first?
    rw [split] at first ⊢
    rw [first] at first'
    obtain rfl := Option.some.inj first'
    rw [length, List.take_left, List.drop_left, worth]
    exact isItem

theorem splits_piecesOf (line : Nat) (text : List Char) :
    Splits line text (piecesOf line text).1 (piecesOf line text).2 := by
  fun_induction piecesOf line text with
  | case1 line text gap start first =>
    have longest : Longest Gap gap start := longest_gap text
    have parts : gap ++ start = text := List.take_append_drop (gapLength text) text
    rw [eq_nil_of_first?_eq_none first] at longest parts
    rw [← parts, List.append_nil]
    exact .last longest
  | case2 line text gap start found first _ word rest ih =>
    have longest : Longest Gap gap start := longest_gap text
    have parts : gap ++ start = text := List.take_append_drop (gapLength text) text
    have halves : word ++ start.drop found.length = start := List.take_append_drop _ start
    rw [← halves] at longest parts
    exact .piece parts longest (itemAt_of_first? first _) ih

theorem mem_blanks_of_mem_spaced {text : List Char} : ∀ c ∈ spaced text, c ∈ blanks := by
  intro c member
  obtain ⟨d, _, rfl⟩ := List.mem_map.mp member
  split
  · decide
  · decide

theorem count_spaced (text : List Char) : (spaced text).count '\n' = text.count '\n' := by
  induction text with
  | nil => rfl
  | cons c text ih =>
    rw [spaced, List.map_cons, ← spaced]
    by_cases lineFeed : c = '\n'
    · rw [if_pos lineFeed, lineFeed, List.count_cons_self, List.count_cons_self, ih]
    · rw [if_neg lineFeed, List.count_cons_of_ne (by decide), ih, List.count_cons_of_ne lineFeed]

theorem lineAfter_spaced (line : Nat) (text : List Char) :
    lineAfter line (spaced text) = lineAfter line text := by
  rw [lineAfter, lineAfter, count_spaced]

section Pieces

variable {line : Nat} {gap text behind : List Char} {error : ScanError}

theorem repaired_of_error (longest : Longest Gap gap (text ++ behind))
    (isItem : ItemAt line text behind (.error error)) :
    Piece.repaired ⟨gap, text, .error error⟩ = gap ++ spaced text := by
  have goesOn := isItem.not_lineEnds longest
  cases isItem with
  | openString inside => rfl
  | @stray c behind noQuote noToken =>
    have different : c ≠ '\n' := fun same => goesOn (.inr (congrArg some same))
    rw [spaced, List.map_singleton, if_neg different]
    rfl

end Pieces

namespace Splits

variable {line : Nat} {text last : List Char} {pieces : List Piece}

/-- The repaired text goes on like the text itself up to the first fault. -/
theorem agrees_repaired (split : Splits line text pieces last) :
    AgreesToBlank text (pieces.flatMap Piece.repaired ++ last) := by
  induction split with
  | last longest => exact .same _
  | @piece line _ gap text behind last item pieces parts longest isItem more ih =>
    subst parts
    rw [List.flatMap_cons, List.append_assoc]
    cases item with
    | ok t =>
      rw [Piece.repaired, List.append_assoc]
      exact (ih.append_left text).append_left gap
    | error error =>
      rw [repaired_of_error longest isItem, List.append_assoc]
      obtain ⟨c, rest, rfl⟩ := List.exists_cons_of_ne_nil isItem.text_ne_nil
      have isBlank := @mem_blanks_of_mem_spaced (c :: rest) _ List.mem_cons_self
      exact .append_left (.blank isBlank _ _) gap

/-- Repair leaves all line feeds in place. -/
theorem lineAfter_repaired (split : Splits line text pieces last) :
    lineAfter line (pieces.flatMap Piece.repaired ++ last) = lineAfter line text := by
  induction split with
  | last longest => rfl
  | @piece line _ gap text behind last item pieces parts longest isItem more ih =>
    subst parts
    have step : lineAfter line (Piece.repaired ⟨gap, text, item⟩) =
        lineAfter line (gap ++ text) := by
      cases item with
      | ok t => rfl
      | error error =>
        rw [repaired_of_error longest isItem, lineAfter_append, lineAfter_spaced, lineAfter_append]
    rw [List.flatMap_cons, List.append_assoc, lineAfter_append, step, ih, ← List.append_assoc,
      ← lineAfter_append]

/-- The repaired text consists of the tokens among the pieces. -/
theorem consistsOf_repaired (split : Splits line text pieces last) :
    ConsistsOf line (pieces.flatMap Piece.repaired ++ last)
      ((pieces.map Piece.item).filterMap Except.toOption) := by
  induction split with
  | last longest => exact .gap longest
  | @piece line _ gap text behind last item pieces parts longest isItem more ih =>
    subst parts
    rw [List.flatMap_cons, List.append_assoc, List.map_cons]
    cases item with
    | ok t =>
      rw [Piece.repaired, List.append_assoc]
      exact .piece_append longest isItem more.agrees_repaired ih
    | error error =>
      have goesOn := isItem.not_lineEnds longest
      have isGap : Gap (pieces.flatMap Piece.repaired ++ last) (gap ++ spaced text) := by
        apply Gap.append _ (gap_of_blanks _ mem_blanks_of_mem_spaced)
        exact longest.holds.in_front_of fun ends => absurd ends goesOn
      rw [repaired_of_error longest isItem]
      apply ConsistsOf.gap_append isGap
      rwa [lineAfter_append, lineAfter_spaced, ← lineAfter_append]

end Splits

namespace TokenStream

theorem items_eq_map_piecesOf (source : String) :
    (ofSource source).items =
      (piecesOf firstLine source.toList).1.map Piece.item ++ [.ok (ending source)] :=
  items_of_splits (splits_piecesOf firstLine source.toList) rfl rfl rfl

/-- A repaired source has the tokens that the stream of the source yields between the errors. -/
theorem items_repaired (source : String) :
    (ofSource (repaired source)).items = (ofSource source).tokens.map .ok := by
  have split := splits_piecesOf firstLine source.toList
  have text : (repaired source).toList =
      (piecesOf firstLine source.toList).1.flatMap Piece.repaired ++
        (piecesOf firstLine source.toList).2 := String.toList_ofList
  have consists := split.consistsOf_repaired
  have sameEnding : ending (repaired source) = ending source := by
    rw [ending, ending, text, split.lineAfter_repaired]
  rw [← text] at consists
  rw [items_of_consistsOf consists, sameEnding, tokens, items_eq_map_piecesOf,
    List.filterMap_append]
  rfl

end TokenStream

end Lox
