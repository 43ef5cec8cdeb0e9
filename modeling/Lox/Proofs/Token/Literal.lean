import Lox.Proofs.Number.Decimal
import Lox.Proofs.Token.Layout

set_option autoImplicit false

namespace Lox

/-- Digits, with a point among them or without. -/
inductive IsNumeral : List Char → Prop
  | whole {digits : List Char} (isWhole : Digits digits) : IsNumeral digits
  | fraction {whole digits : List Char} (isWhole : Digits whole) (isFraction : Digits digits) :
    IsNumeral (whole ++ '.' :: digits)

/-- A number as a numeral can stand for it. -/
structure Number.IsUnsigned (n : Number) : Prop where
  notNegative : n.isNegative = false
  notNaN : n.isNaN = false

/-- What a scan promises of a token: its literal goes with its type and its text. -/
structure Token.IsScanned (t : Token) : Prop where
  number : t.type = .number → IsNumeral t.lexeme.toList ∧
    ∃ n : Number, t.literal = some (.number n) ∧
      n = .ofDecimal (Decimal.ofText t.lexeme.toList) ∧ n.IsUnsigned
  string : t.type = .string → ∃ s : String, t.literal = some (.string s) ∧
    '"' ∉ s.toList ∧ t.lexeme = "\"" ++ s ++ "\""
  noOther : t.type ≠ .number → t.type ≠ .string → t.literal = none
  empty_iff : t.lexeme = "" ↔ t.type = .endOfInput

theorem Number.isUnsigned_ofDecimal (d : Decimal) : (Number.ofDecimal d).IsUnsigned := by
  have limit : d.pattern ≤ 9218868437227405312 := Pattern.nearest_le_infinity _ _
  constructor
  · apply decide_eq_false
    rw [bits_ofDecimal]
    show ¬ 9223372036854775808 ≤ d.pattern
    omega
  · apply decide_eq_false
    rw [pattern_ofDecimal]
    show ¬ 9218868437227405312 < d.pattern
    omega

section Matches

variable {text : List Char} {type other : TokenType}

theorem Matches.shape (matched : Matches text type) :
    (type = .number → IsNumeral text) ∧
      (type = .string → ∃ contents, '"' ∉ contents ∧ text = '"' :: (contents ++ ['"'])) := by
  have inSingles : ∀ entry ∈ singles, entry.2 ≠ .number ∧ entry.2 ≠ .string := by decide
  have inPairs : ∀ entry ∈ pairs, (entry.2.1 ≠ .number ∧ entry.2.1 ≠ .string) ∧
      entry.2.2 ≠ .number ∧ entry.2.2 ≠ .string := by decide
  have inKeywords : ∀ entry ∈ keywords, entry.2 ≠ .number ∧ entry.2 ≠ .string := by decide
  cases matched with
  | single listed => simp [inSingles _ listed]
  | alone listed => simp [inPairs _ listed]
  | joined listed => simp [inPairs _ listed]
  | whole isWhole => exact ⟨fun _ => .whole isWhole, nofun⟩
  | fraction isWhole isFraction => exact ⟨fun _ => .fraction isWhole isFraction, nofun⟩
  | word start inside typed =>
    cases typed with
    | keyword listed => simp [inKeywords _ listed]
    | identifier others => simp
  | string inside => exact ⟨nofun, fun _ => ⟨_, inside, rfl⟩⟩

theorem Matches.ne_nil (matched : Matches text type) : text ≠ [] := by
  have isItem : ItemAt firstLine text [] _ := .token matched.longest_last matched
  exact isItem.text_ne_nil

/-- A text is a token of one type only. -/
theorem Matches.type_eq (matched : Matches text type) (another : Matches text other) :
    type = other := by
  obtain ⟨found, first, denoted⟩ := ItemAt.first?_of_longest matched.longest_last matched
  obtain ⟨again, first', denoted'⟩ := ItemAt.first?_of_longest another.longest_last another
  obtain rfl := Option.some.inj (first.symm.trans first')
  have same := (denoted.item firstLine).symm.trans (denoted'.item firstLine)
  exact congrArg Token.type (Except.ok.inj same)

end Matches

namespace Token

variable {t u : Token}

theorem Genuine.type_eq (first : t.Genuine) (second : u.Genuine) (same : t.lexeme = u.lexeme) :
    t.type = u.type := by
  have matched := first.matched
  rw [same] at matched
  exact matched.type_eq second.matched

/-- Tokens that are found in a text are known by their lexemes, but for their lines. -/
theorem Genuine.unlined_eq (first : t.Genuine) (second : u.Genuine)
    (same : t.lexeme = u.lexeme) : t.unlined = u.unlined := by
  have type := first.type_eq second same
  have literal : t.literal = u.literal := by
    rw [first.literal, second.literal, type, same]
  rw [unlined, unlined, type, same, literal]

theorem Genuine.isScanned (genuine : t.Genuine) : t.IsScanned := by
  have shape := genuine.matched.shape
  have literal := genuine.literal
  constructor
  · intro isNumber
    rw [isNumber] at literal
    exact ⟨shape.1 isNumber, _, literal, rfl, Number.isUnsigned_ofDecimal _⟩
  · intro isString
    obtain ⟨contents, inside, quoted⟩ := shape.2 isString
    rw [isString, quoted, literalOf, List.tail_cons, List.dropLast_concat] at literal
    refine ⟨String.ofList contents, literal, by rwa [String.toList_ofList], ?_⟩
    apply String.toList_inj.mp
    simp [quoted]
  · intro notNumber notString
    rw [literal, Lexeme.literalOf_symbol notNumber notString]
  · have nonempty : t.lexeme ≠ "" := by
      intro empty
      exact genuine.matched.ne_nil (by rw [empty]; rfl)
    exact ⟨fun empty => absurd empty nonempty,
      fun ending => absurd ending genuine.type_ne_endOfInput⟩

theorem isScanned_endOfInput (line : Nat) : (endOfInput line).IsScanned :=
  ⟨nofun, nofun, fun _ _ => rfl, fun _ => rfl, fun _ => rfl⟩

theorem IsScanned.exists_value? (scanned : t.IsScanned) (carries : t.type ∈ [.number, .string]) :
    ∃ value, t.value? = some value := by
  simp only [List.mem_cons, List.not_mem_nil, or_false] at carries
  rcases carries with isNumber | isString
  · obtain ⟨_, n, literal, _⟩ := scanned.number isNumber
    exact ⟨.number n, by simp only [value?, isNumber, literal]⟩
  · obtain ⟨s, literal, _⟩ := scanned.string isString
    exact ⟨.string s, by simp only [value?, isString, literal]⟩

end Token

namespace TokenStream

/-- All tokens of a source carry the literals that go with them. -/
theorem isScanned_of_mem_tokens {source : String} {t : Token}
    (member : t ∈ (ofSource source).tokens) : t.IsScanned := by
  have ⟨whole, genuine⟩ := tokens_eq_words_append source
  rw [whole] at member
  rcases List.mem_append.mp member with word | last
  · exact (genuine t word).isScanned
  · rw [List.mem_singleton.mp last]
    exact Token.isScanned_endOfInput _

end TokenStream

end Lox
