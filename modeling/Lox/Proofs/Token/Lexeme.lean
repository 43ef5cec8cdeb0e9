import Lox.Proofs.Token.Class
import Lox.Token.Stream

set_option autoImplicit false

namespace Lox

section Numeral

variable {c : Char} {whole digits rest behind : List Char}

theorem numeral_append (inside : ∀ c ∈ whole, IsDigit c) :
    numeral (whole ++ behind) = whole ++ numeral behind := by
  have inside : ∀ c ∈ whole, c.isDigit = true := fun c member => isDigit_iff.mpr (inside c member)
  simp only [numeral, List.takeWhile_append_of_pos inside, List.dropWhile_append_of_pos inside]
  split
  · split
    · rfl
    · rw [List.append_assoc]
  · rfl

theorem numeral_point (isFraction : Digits digits) :
    numeral ('.' :: (digits ++ behind)) = '.' :: (digits ++ behind.takeWhile Char.isDigit) := by
  have inside : ∀ c ∈ digits, c.isDigit = true :=
    fun c member => isDigit_iff.mpr (isFraction.digits c member)
  have point : ¬ Char.isDigit '.' = true := by decide
  have nonempty : (digits ++ behind.takeWhile Char.isDigit).isEmpty = false := by
    simp only [List.isEmpty_eq_false_iff, ne_eq, List.append_eq_nil_iff, isFraction.nonempty,
      false_and, not_false_eq_true]
  simp only [numeral, List.takeWhile_cons_of_neg point, List.dropWhile_cons_of_neg point,
    List.takeWhile_append_of_pos inside, nonempty, Bool.false_eq_true, ↓reduceIte, List.nil_append]

theorem digits_takeWhile (text : List Char) : ∀ c ∈ text.takeWhile Char.isDigit, IsDigit c := by
  intro c member
  exact isDigit_iff.mp (List.all_eq_true.mp List.all_takeWhile c member)

theorem matches_numeral (rest : List Char) (digit : IsDigit c) :
    ∃ behind, c :: rest = numeral (c :: rest) ++ behind ∧
      Matches (numeral (c :: rest)) .number := by
  have isWhole : Digits ((c :: rest).takeWhile Char.isDigit) := by
    refine ⟨?_, digits_takeWhile _⟩
    rw [List.takeWhile_cons_of_pos (isDigit_iff.mpr digit)]
    exact List.cons_ne_nil _ _
  have parts : (c :: rest).takeWhile Char.isDigit ++ (c :: rest).dropWhile Char.isDigit =
      c :: rest := List.takeWhile_append_dropWhile
  simp only [numeral]
  split
  next tail point =>
    have digits : tail.takeWhile Char.isDigit ++ tail.dropWhile Char.isDigit = tail :=
      List.takeWhile_append_dropWhile
    split
    next => exact ⟨_, parts.symm, .whole isWhole⟩
    next nonempty =>
      have isFraction : Digits (tail.takeWhile Char.isDigit) :=
        ⟨by simpa using nonempty, digits_takeWhile _⟩
      refine ⟨tail.dropWhile Char.isDigit, ?_, .fraction isWhole isFraction⟩
      rw [List.append_assoc, List.cons_append, digits, ← point, parts]
  next => exact ⟨_, parts.symm, .whole isWhole⟩

end Numeral

theorem takeWhile_quote {contents : List Char} (rest : List Char) (inside : '"' ∉ contents) :
    (contents ++ rest).takeWhile (· ≠ '"') = contents ++ rest.takeWhile (· ≠ '"') := by
  apply List.takeWhile_append_of_pos
  intro c member
  simp only [ne_eq, decide_not, Bool.not_eq_true', decide_eq_false_iff_not]
  rintro rfl
  exact inside member

namespace Lexeme

section First

variable {c : Char} {rest contents : List Char}

theorem first?_symbol {type : TokenType} {length : Nat}
    (found : symbol? (c :: rest) = some (type, length)) :
    first? (c :: rest) = some (symbol type length) := by
  simp only [first?, found]

theorem symbol?_word (rest : List Char) (inWord : isWordChar c = true) :
    symbol? (c :: rest) = none ∧ c ≠ '"' := by
  have other : ∀ d ∈ '"' :: symbolStarts, c ≠ d := by
    rintro d member rfl
    rw [not_isWordChar c member] at inWord
    cases inWord
  refine ⟨symbol?_none ?_, other _ List.mem_cons_self⟩
  intro member
  exact other c (List.mem_cons_of_mem _ member) rfl

theorem first?_number (digit : IsDigit c) :
    first? (c :: rest) = some (number (numeral (c :: rest))) := by
  have ⟨noSymbol, noQuote⟩ := symbol?_word rest (isWordChar_iff.mpr (.inr digit))
  simp only [first?, noSymbol, noQuote, isDigit_iff.mpr digit, ↓reduceIte]

theorem first?_digits {whole : List Char} (isWhole : Digits whole) :
    first? (whole ++ rest) = some (number (whole ++ numeral rest)) := by
  rw [← numeral_append isWhole.digits]
  cases whole with
  | nil => exact absurd rfl isWhole.nonempty
  | cons c digits => exact first?_number (isWhole.digits c List.mem_cons_self)

theorem first?_fraction {whole digits : List Char} (isWhole : Digits whole)
    (isFraction : Digits digits) :
    first? ((whole ++ '.' :: digits) ++ rest) =
      some (number ((whole ++ '.' :: digits) ++ rest.takeWhile Char.isDigit)) := by
  rw [List.append_assoc, List.cons_append, first?_digits isWhole, numeral_point isFraction,
    List.append_assoc, List.cons_append]

theorem first?_word (letter : IsLetter c) :
    first? (c :: rest) = some (word (c :: rest.takeWhile isWordChar)) := by
  have inside := isWordChar_iff.mpr (.inl letter)
  have ⟨noSymbol, noQuote⟩ := symbol?_word rest inside
  simp only [first?, noSymbol, noQuote, mt isDigit_iff.mp (not_isDigit letter),
    isWordStart_iff.mpr letter, Bool.false_eq_true, ↓reduceIte, List.takeWhile_cons_of_pos inside]

theorem first?_string (inside : '"' ∉ contents) :
    first? ('"' :: (contents ++ '"' :: rest)) = some (string contents) := by
  have noSymbol : symbol? ('"' :: (contents ++ '"' :: rest)) = none := symbol?_none (by decide)
  have stop : ('"' :: rest).takeWhile (· ≠ '"') = [] := rfl
  have shorter : contents.length < (contents ++ '"' :: rest).length := by
    rw [List.length_append, List.length_cons]
    omega
  simp only [first?, noSymbol, takeWhile_quote _ inside, stop, List.append_nil, shorter, ↓reduceIte]

theorem first?_openString (inside : '"' ∉ rest) :
    first? ('"' :: rest) = some (openString rest) := by
  have noSymbol : symbol? ('"' :: rest) = none := symbol?_none (by decide)
  have whole := takeWhile_quote [] inside
  simp only [List.append_nil, List.takeWhile_nil] at whole
  simp only [first?, noSymbol, whole, Nat.lt_irrefl, ↓reduceIte]

theorem first?_stray (noSymbol : c ∉ symbolStarts)
    (noQuote : c ≠ '"') (noDigit : ¬ IsDigit c) (noLetter : ¬ IsLetter c) :
    first? (c :: rest) = some (stray c) := by
  simp only [first?, symbol?_none noSymbol, noQuote, mt isDigit_iff.mp noDigit,
    mt isWordStart_iff.mp noLetter, Bool.false_eq_true, ↓reduceIte]

end First

def IsToken : Lexeme → Prop
  | openString _ | stray _ => False
  | symbol _ _ | number _ | word _ | string _ => True

/-- The lexeme takes the whole text, which is a token of the given type, and yields that token. -/
structure Denotes (found : Lexeme) (text : List Char) (type : TokenType) : Prop where
  isToken : found.IsToken
  matched : Matches text type
  length : found.length = text.length
  item : ∀ line, found.item (String.ofList text) line =
    .ok ⟨type, String.ofList text, literalOf type text, line⟩

theorem literalOf_symbol {type : TokenType} (notNumber : type ≠ .number)
    (notString : type ≠ .string) (text : List Char) : literalOf type text = none := by
  unfold literalOf
  split
  · exact absurd rfl notNumber
  · exact absurd rfl notString
  · rfl

theorem denotes_single {c : Char} {type : TokenType} (listed : (c, type) ∈ singles) :
    (symbol type 1).Denotes [c] type := by
  have noLiteral : ∀ entry ∈ singles, entry.2 ≠ .number ∧ entry.2 ≠ .string := by decide
  have ⟨notNumber, notString⟩ := noLiteral _ listed
  refine ⟨trivial, .single listed, rfl, fun line => ?_⟩
  rw [literalOf_symbol notNumber notString]
  rfl

theorem denotes_pair {c : Char} {alone joined : TokenType} (listed : (c, alone, joined) ∈ pairs) :
    (symbol alone 1).Denotes [c] alone ∧ (symbol joined 2).Denotes [c, '='] joined := by
  have noLiteral : ∀ entry ∈ pairs, (entry.2.1 ≠ .number ∧ entry.2.1 ≠ .string) ∧
      entry.2.2 ≠ .number ∧ entry.2.2 ≠ .string := by decide
  have ⟨⟨aloneNumber, aloneString⟩, joinedNumber, joinedString⟩ := noLiteral _ listed
  refine ⟨⟨trivial, .alone listed, rfl, fun line => ?_⟩,
    ⟨trivial, .joined listed, rfl, fun line => ?_⟩⟩
  · rw [literalOf_symbol aloneNumber aloneString]
    rfl
  · rw [literalOf_symbol joinedNumber joinedString]
    rfl

theorem denotes_number {digits : List Char} (matched : Matches digits .number) :
    (number digits).Denotes digits .number :=
  ⟨trivial, matched, rfl, fun _ => rfl⟩

theorem denotes_word {c : Char} {letters : List Char} {type : TokenType} (start : IsLetter c)
    (inside : ∀ d ∈ letters, IsLetter d ∨ IsDigit d) (typed : WordType (c :: letters) type) :
    (word (c :: letters)).Denotes (c :: letters) type := by
  refine ⟨trivial, .word start inside typed, rfl, fun line => ?_⟩
  have noLiteral : ∀ entry ∈ keywords, entry.2 ≠ .number ∧ entry.2 ≠ .string := by decide
  have notLiteral : type ≠ .number ∧ type ≠ .string := by
    cases typed with
    | keyword listed => exact noLiteral _ listed
    | identifier others => exact ⟨by decide, by decide⟩
  rw [literalOf_symbol notLiteral.1 notLiteral.2]
  simp only [item, (wordType_iff _ _).mp typed]

theorem denotes_string {contents : List Char} (inside : '"' ∉ contents) :
    (string contents).Denotes ('"' :: (contents ++ ['"'])) .string := by
  refine ⟨trivial, .string inside, ?_, fun line => ?_⟩
  · simp only [length, List.length_cons, List.length_append, List.length_nil]
  · simp only [item, literalOf, List.tail_cons, List.dropLast_concat]

/-- The lexeme is this token or one that begins with its text and is longer. -/
structure Covers (found : Lexeme) (text : List Char) (type : TokenType) : Prop where
  isToken : found.IsToken
  length_le : text.length ≤ found.length
  denotes : found.length = text.length → found.Denotes text type

theorem Denotes.covers {found : Lexeme} {text : List Char} {type : TokenType}
    (denoted : found.Denotes text type) : found.Covers text type :=
  ⟨denoted.isToken, Nat.le_of_eq denoted.length.symm, fun _ => denoted⟩

theorem covers_number {digits : List Char} (more : List Char) (matched : Matches digits .number) :
    (number (digits ++ more)).Covers digits .number := by
  refine ⟨trivial, ?_, fun same => ?_⟩
  · rw [length, List.length_append]
    exact Nat.le_add_right _ _
  · have none : more = [] := by
      rw [length, List.length_append] at same
      exact List.eq_nil_of_length_eq_zero (by omega)
    rw [none, List.append_nil]
    exact denotes_number matched

theorem covers_word {c : Char} {letters : List Char} {type : TokenType} (more : List Char)
    (start : IsLetter c) (inside : ∀ d ∈ letters, IsLetter d ∨ IsDigit d)
    (typed : WordType (c :: letters) type) :
    (word (c :: (letters ++ more))).Covers (c :: letters) type := by
  refine ⟨trivial, ?_, fun same => ?_⟩
  · simp only [length, List.length_cons, List.length_append]
    omega
  · have none : more = [] := by
      simp only [length, List.length_cons, List.length_append] at same
      exact List.eq_nil_of_length_eq_zero (by omega)
    rw [none, List.append_nil]
    exact denotes_word start inside typed

end Lexeme

/-- At the start of every text that begins with a token stands this token or a longer one. -/
theorem Matches.first? {text : List Char} {type : TokenType} (matched : Matches text type)
    (behind : List Char) :
    ∃ found, Lexeme.first? (text ++ behind) = some found ∧ found.Covers text type := by
  cases matched with
  | single listed =>
    exact ⟨_, Lexeme.first?_symbol (symbol?_single listed), (Lexeme.denotes_single listed).covers⟩
  | @alone c type joined listed =>
    by_cases equals : behind.head? = some '='
    -- The equals sign belongs to the text behind the token, and what is found takes it.
    · obtain ⟨rest, rfl⟩ := List.head?_eq_some_iff.mp equals
      refine ⟨_, Lexeme.first?_symbol (symbol?_joined listed), trivial, ?_, ?_⟩
      · exact (by decide : 1 ≤ 2)
      · exact fun same => absurd same (by decide : 2 ≠ 1)
    · exact ⟨_, Lexeme.first?_symbol (symbol?_alone listed equals),
        (Lexeme.denotes_pair listed).1.covers⟩
  | joined listed =>
    exact ⟨_, Lexeme.first?_symbol (symbol?_joined listed), (Lexeme.denotes_pair listed).2.covers⟩
  | whole isWhole =>
    exact ⟨_, Lexeme.first?_digits isWhole, Lexeme.covers_number _ (.whole isWhole)⟩
  | fraction isWhole isFraction =>
    exact ⟨_, Lexeme.first?_fraction isWhole isFraction,
      Lexeme.covers_number _ (.fraction isWhole isFraction)⟩
  | @word c letters type start inside typed =>
    have within : ∀ d ∈ letters, isWordChar d = true :=
      fun d member => isWordChar_iff.mpr (inside d member)
    rw [List.cons_append, Lexeme.first?_word start, List.takeWhile_append_of_pos within]
    exact ⟨_, rfl, Lexeme.covers_word _ start inside typed⟩
  | @string contents inside =>
    rw [List.cons_append, List.append_assoc, List.singleton_append]
    exact ⟨_, Lexeme.first?_string inside, (Lexeme.denotes_string inside).covers⟩

/-- At the start of every text but the empty one stands a token, a quote that is never closed or a
stray character. -/
theorem Lexeme.first?_cons (c : Char) (rest : List Char) :
    (∃ found text behind type, c :: rest = text ++ behind ∧
        first? (c :: rest) = some found ∧ found.Denotes text type) ∨
      (c = '"' ∧ '"' ∉ rest ∧ first? (c :: rest) = some (openString rest)) ∨
      (c ≠ '"' ∧ first? (c :: rest) = some (stray c)) := by
  by_cases single : c ∈ singles.map Prod.fst
  · obtain ⟨⟨_, type⟩, listed, rfl⟩ := List.mem_map.mp single
    exact .inl ⟨_, _, rest, _, rfl, first?_symbol (symbol?_single listed), denotes_single listed⟩
  by_cases pair : c ∈ pairs.map Prod.fst
  · obtain ⟨⟨_, alone, joined⟩, listed, rfl⟩ := List.mem_map.mp pair
    have ⟨denotesAlone, denotesJoined⟩ := denotes_pair listed
    by_cases equals : rest.head? = some '='
    · obtain ⟨behind, rfl⟩ := List.head?_eq_some_iff.mp equals
      exact .inl ⟨_, _, behind, _, rfl, first?_symbol (symbol?_joined listed), denotesJoined⟩
    · exact .inl ⟨_, _, rest, _, rfl, first?_symbol (symbol?_alone listed equals), denotesAlone⟩
  by_cases quote : c = '"'
  · subst quote
    by_cases closed : '"' ∈ rest
    · obtain ⟨contents, behind, rfl, inside⟩ := List.eq_append_cons_of_mem closed
      refine .inl ⟨_, _, behind, _, ?_, first?_string inside, denotes_string inside⟩
      rw [List.cons_append, List.append_assoc, List.singleton_append]
    · exact .inr (.inl ⟨rfl, closed, first?_openString closed⟩)
  by_cases digit : IsDigit c
  · obtain ⟨behind, split, matched⟩ := matches_numeral rest digit
    exact .inl ⟨_, _, behind, _, split, first?_number digit, denotes_number matched⟩
  by_cases letter : IsLetter c
  · have inside : ∀ d ∈ rest.takeWhile isWordChar, IsLetter d ∨ IsDigit d := by
      intro d member
      exact isWordChar_iff.mp (List.all_eq_true.mp List.all_takeWhile d member)
    have typed := (wordType_iff (c :: rest.takeWhile isWordChar) _).mpr rfl
    refine .inl ⟨_, _, rest.dropWhile isWordChar, _, ?_, first?_word letter,
      denotes_word letter inside typed⟩
    rw [List.cons_append, List.takeWhile_append_dropWhile]
  · have noSymbol : c ∉ symbolStarts := by
      intro member
      rcases List.mem_append.mp member with member | member
      · exact single member
      · exact pair member
    exact .inr (.inr ⟨quote, first?_stray noSymbol quote digit letter⟩)

end Lox
