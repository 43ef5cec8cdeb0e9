import Lox.Proofs.Token.Gap

set_option autoImplicit false

namespace Lox

/-- The tokens of one character that never go on. -/
def singles : List (Char × TokenType) :=
  [('(', .leftParen), (')', .rightParen), ('{', .leftBrace), ('}', .rightBrace), (',', .comma),
    ('.', .dot), ('-', .minus), ('+', .plus), (';', .semicolon), ('/', .slash), ('*', .star)]

/-- The characters that are one token alone and another together with an equals sign. -/
def pairs : List (Char × TokenType × TokenType) :=
  [('!', .bang, .bangEqual), ('=', .equal, .equalEqual), ('<', .less, .lessEqual),
    ('>', .greater, .greaterEqual)]

def symbolStarts : List Char :=
  singles.map Prod.fst ++ pairs.map Prod.fst

def keywords : List (String × TokenType) :=
  [("and", .kwAnd), ("class", .kwClass), ("else", .kwElse), ("false", .kwFalse), ("fun", .kwFun),
    ("for", .kwFor), ("if", .kwIf), ("nil", .kwNil), ("or", .kwOr), ("print", .kwPrint),
    ("return", .kwReturn), ("super", .kwSuper), ("this", .kwThis), ("true", .kwTrue),
    ("var", .kwVar), ("while", .kwWhile)]

def IsDigit (c : Char) : Prop :=
  '0' ≤ c ∧ c ≤ '9'

def IsLetter (c : Char) : Prop :=
  'A' ≤ c ∧ c ≤ 'Z' ∨ 'a' ≤ c ∧ c ≤ 'z' ∨ c = '_'

/-- One digit or more. -/
structure Digits (text : List Char) : Prop where
  nonempty : text ≠ []
  digits : ∀ c ∈ text, IsDigit c

inductive WordType (letters : List Char) : TokenType → Prop
  | keyword {type : TokenType} (listed : (String.ofList letters, type) ∈ keywords) :
    WordType letters type
  | identifier (others : ∀ type, (String.ofList letters, type) ∉ keywords) :
    WordType letters .identifier

/-- The text is a token of the given type. -/
inductive Matches : List Char → TokenType → Prop
  | single {c : Char} {type : TokenType} (listed : (c, type) ∈ singles) : Matches [c] type
  | alone {c : Char} {type joined : TokenType} (listed : (c, type, joined) ∈ pairs) :
    Matches [c] type
  | joined {c : Char} {alone type : TokenType} (listed : (c, alone, type) ∈ pairs) :
    Matches [c, '='] type
  | whole {digits : List Char} (isWhole : Digits digits) : Matches digits .number
  | fraction {whole digits : List Char} (isWhole : Digits whole) (isFraction : Digits digits) :
    Matches (whole ++ '.' :: digits) .number
  | word {c : Char} {letters : List Char} {type : TokenType} (start : IsLetter c)
    (inside : ∀ d ∈ letters, IsLetter d ∨ IsDigit d) (typed : WordType (c :: letters) type) :
    Matches (c :: letters) type
  | string {contents : List Char} (inside : '"' ∉ contents) :
    Matches ('"' :: (contents ++ ['"'])) .string

def literalOf : TokenType → List Char → Option Literal
  | .number, digits => some (.number (Number.ofDecimal (Decimal.ofText digits)))
  | .string, quoted => some (.string (String.ofList quoted.tail.dropLast))
  | _, _ => none

section Characters

variable {c : Char}

theorem isDigit_iff : c.isDigit = true ↔ IsDigit c := by
  simp only [Char.isDigit, IsDigit, Bool.and_eq_true, decide_eq_true_eq]
  rfl

theorem Digits.of_all {text : List Char} (nonempty : text ≠ [])
    (digits : text.all Char.isDigit = true) : Digits text :=
  ⟨nonempty, fun c member => isDigit_iff.mp (List.all_eq_true.mp digits c member)⟩

theorem isWordStart_iff : isWordStart c = true ↔ IsLetter c := by
  have upper : c.isUpper = true ↔ 'A' ≤ c ∧ c ≤ 'Z' := decide_eq_true_iff
  have lower : c.isLower = true ↔ 'a' ≤ c ∧ c ≤ 'z' := by
    change (decide ('a' ≤ c) && decide (c ≤ 'z')) = true ↔ _
    rw [Bool.and_eq_true, decide_eq_true_iff, decide_eq_true_iff]
  have alpha : c.isAlpha = (c.isUpper || c.isLower) := rfl
  simp only [isWordStart, alpha, Bool.or_eq_true, beq_iff_eq, upper, lower, IsLetter, or_assoc]

theorem isWordChar_iff : isWordChar c = true ↔ IsLetter c ∨ IsDigit c := by
  rw [← isWordStart_iff, ← isDigit_iff]
  simp only [isWordChar, isWordStart, Char.isAlphanum, Bool.or_eq_true, or_right_comm]

theorem not_isDigit (letter : IsLetter c) : ¬ IsDigit c := by
  intro ⟨_, le⟩
  have le : c.val.toNat ≤ 57 := le
  rcases letter with ⟨ge, _⟩ | ⟨ge, _⟩ | rfl
  · have ge : 65 ≤ c.val.toNat := ge
    omega
  · have ge : 97 ≤ c.val.toNat := ge
    omega
  · exact absurd le (by decide)

theorem not_isWordChar : ∀ c ∈ '"' :: symbolStarts, isWordChar c = false := by
  have table : ('"' :: symbolStarts).all (fun c => !isWordChar c) = true := by decide
  intro c member
  have outside := List.all_eq_true.mp table c member
  simpa only [Bool.not_eq_true'] using outside

end Characters

section Symbols

variable {c : Char} {rest : List Char} {type alone joined : TokenType}

theorem symbol?_single (listed : (c, type) ∈ singles) : symbol? (c :: rest) = some (type, 1) := by
  simp only [singles, List.mem_cons, List.not_mem_nil, or_false, Prod.mk.injEq] at listed
  rcases listed with ⟨rfl, rfl⟩ | ⟨rfl, rfl⟩ | ⟨rfl, rfl⟩ | ⟨rfl, rfl⟩ | ⟨rfl, rfl⟩ | ⟨rfl, rfl⟩ |
    ⟨rfl, rfl⟩ | ⟨rfl, rfl⟩ | ⟨rfl, rfl⟩ | ⟨rfl, rfl⟩ | ⟨rfl, rfl⟩ <;> rfl

theorem symbol?_joined (listed : (c, alone, joined) ∈ pairs) :
    symbol? (c :: '=' :: rest) = some (joined, 2) := by
  simp only [pairs, List.mem_cons, List.not_mem_nil, or_false, Prod.mk.injEq] at listed
  rcases listed with ⟨rfl, rfl, rfl⟩ | ⟨rfl, rfl, rfl⟩ | ⟨rfl, rfl, rfl⟩ | ⟨rfl, rfl, rfl⟩ <;> rfl

theorem symbol?_alone (listed : (c, alone, joined) ∈ pairs) (noEquals : rest.head? ≠ some '=') :
    symbol? (c :: rest) = some (alone, 1) := by
  have noEquals : ∀ tail, rest = '=' :: tail → False := by
    rintro tail rfl
    exact noEquals rfl
  simp only [pairs, List.mem_cons, List.not_mem_nil, or_false, Prod.mk.injEq] at listed
  rcases listed with ⟨rfl, rfl, rfl⟩ | ⟨rfl, rfl, rfl⟩ | ⟨rfl, rfl, rfl⟩ | ⟨rfl, rfl, rfl⟩ <;>
    simp only [symbol?]

theorem head_mem_of_symbol? {text : List Char} {found : TokenType × Nat}
    (isSymbol : symbol? text = some found) : ∃ c ∈ symbolStarts, text.head? = some c := by
  unfold symbol? at isSymbol
  split at isSymbol
  case h_20 => cases isSymbol
  all_goals exact ⟨_, by decide, rfl⟩

theorem symbol?_none (other : c ∉ symbolStarts) : symbol? (c :: rest) = none := by
  apply Option.eq_none_iff_forall_ne_some.mpr
  intro found isSymbol
  obtain ⟨_, member, head⟩ := head_mem_of_symbol? isSymbol
  exact other (Option.some.inj head ▸ member)

end Symbols

theorem keyword?_eq_some_iff (text : String) (type : TokenType) :
    TokenType.keyword? text = some type ↔ (text, type) ∈ keywords := by
  constructor
  · intro found
    unfold TokenType.keyword? at found
    split at found <;> cases found <;> decide
  · intro listed
    have table : ∀ entry ∈ keywords, TokenType.keyword? entry.1 = some entry.2 := by decide
    exact table _ listed

theorem wordType_iff (letters : List Char) (type : TokenType) :
    WordType letters type ↔
      (TokenType.keyword? (String.ofList letters)).getD .identifier = type := by
  constructor
  · intro typed
    cases typed with
    | keyword listed => rw [(keyword?_eq_some_iff _ _).mpr listed, Option.getD_some]
    | identifier others =>
      have none : TokenType.keyword? (String.ofList letters) = none := by
        apply Option.eq_none_iff_forall_ne_some.mpr
        intro type found
        exact others type ((keyword?_eq_some_iff _ _).mp found)
      rw [none, Option.getD_none]
  · intro same
    cases found : TokenType.keyword? (String.ofList letters) with
    | none =>
      rw [found, Option.getD_none] at same
      subst same
      apply WordType.identifier
      intro type listed
      rw [(keyword?_eq_some_iff _ _).mpr listed] at found
      cases found
    | some keyword =>
      rw [found, Option.getD_some] at same
      subst same
      exact .keyword ((keyword?_eq_some_iff _ _).mp found)

end Lox
