import Lox.Token.Basic

set_option autoImplicit false

namespace Lox

def isBlank (c : Char) : Bool :=
  c == ' ' || c == '\t' || c == '\r' || c == '\n'

def isWordStart (c : Char) : Bool :=
  c.isAlpha || c == '_'

def isWordChar (c : Char) : Bool :=
  c.isAlphanum || c == '_'

mutual

/-- The number of characters before the first one that is neither blank nor part of a comment. Two
slashes start a comment. -/
def gapLength : List Char → Nat
  | [] => 0
  | c :: rest =>
    if isBlank c then gapLength rest + 1
    else if c = '/' ∧ rest.head? = some '/' then commentLength rest + 1
    else 0

/-- As `gapLength`, inside a comment: it reaches up to the next line feed, and the gap goes on
behind that. -/
def commentLength : List Char → Nat
  | [] => 0
  | c :: rest =>
    if c = '\n' then gapLength rest + 1
    else commentLength rest + 1

end

/-- The operator or the mark of punctuation at the start of a text, and its length. -/
def symbol? : List Char → Option (TokenType × Nat)
  | '(' :: _ => some (.leftParen, 1)
  | ')' :: _ => some (.rightParen, 1)
  | '{' :: _ => some (.leftBrace, 1)
  | '}' :: _ => some (.rightBrace, 1)
  | ',' :: _ => some (.comma, 1)
  | '.' :: _ => some (.dot, 1)
  | '-' :: _ => some (.minus, 1)
  | '+' :: _ => some (.plus, 1)
  | ';' :: _ => some (.semicolon, 1)
  | '/' :: _ => some (.slash, 1)
  | '*' :: _ => some (.star, 1)
  | '!' :: '=' :: _ => some (.bangEqual, 2)
  | '!' :: _ => some (.bang, 1)
  | '=' :: '=' :: _ => some (.equalEqual, 2)
  | '=' :: _ => some (.equal, 1)
  | '<' :: '=' :: _ => some (.lessEqual, 2)
  | '<' :: _ => some (.less, 1)
  | '>' :: '=' :: _ => some (.greaterEqual, 2)
  | '>' :: _ => some (.greater, 1)
  | _ => none

/-- The longest numeral at the start of a text: digits, and if a point with a digit behind it
follows, the point and all digits behind it. -/
def numeral (text : List Char) : List Char :=
  let whole := text.takeWhile Char.isDigit
  match text.dropWhile Char.isDigit with
  | '.' :: rest =>
    let fraction := rest.takeWhile Char.isDigit
    if fraction.isEmpty then whole else whole ++ '.' :: fraction
  | _ => whole

/-- What can stand at the start of a text that does not start with a gap. -/
inductive Lexeme where
  | symbol (type : TokenType) (length : Nat)
  | number (digits : List Char)
  | word (letters : List Char)
  | string (contents : List Char)
  /-- A quote without a second one, and all the text behind it. -/
  | openString (contents : List Char)
  | stray (c : Char)
deriving DecidableEq

namespace Lexeme

/-- The lexeme at the start of a text; `none` if the text is empty. -/
def first? : List Char → Option Lexeme
  | [] => none
  | c :: rest =>
    match symbol? (c :: rest) with
    | some (type, length) => some (symbol type length)
    | none =>
      if c = '"' then
        let contents := rest.takeWhile (· ≠ '"')
        some (if contents.length < rest.length then string contents else openString contents)
      else if c.isDigit then some (number (numeral (c :: rest)))
      else if isWordStart c then some (word ((c :: rest).takeWhile isWordChar))
      else some (stray c)

def length : Lexeme → Nat
  | symbol _ length => length
  | number digits => digits.length
  | word letters => letters.length
  | string contents => contents.length + 2
  | openString contents => contents.length + 1
  | stray _ => 1

end Lexeme

theorem one_le_length_of_symbol? {text : List Char} {type : TokenType} {length : Nat}
    (found : symbol? text = some (type, length)) : 1 ≤ length := by
  unfold symbol? at found
  split at found <;> simp_all <;> omega

theorem one_le_length_numeral {c : Char} {rest : List Char} (digit : c.isDigit = true) :
    1 ≤ (numeral (c :: rest)).length := by
  simp only [numeral, List.takeWhile_cons_of_pos digit]
  split
  · split <;> simp
  · simp

theorem Lexeme.one_le_length {text : List Char} {lexeme : Lexeme}
    (found : Lexeme.first? text = some lexeme) : 1 ≤ lexeme.length := by
  cases text with
  | nil => simp [Lexeme.first?] at found
  | cons c rest =>
    simp only [Lexeme.first?] at found
    split at found
    next type length symbol =>
      obtain rfl := Option.some.inj found
      exact one_le_length_of_symbol? symbol
    next =>
      split at found
      next =>
        obtain rfl := Option.some.inj found
        split <;> simp [Lexeme.length]
      next =>
        split at found
        next digit =>
          obtain rfl := Option.some.inj found
          exact one_le_length_numeral digit
        next =>
          split at found
          next start =>
            obtain rfl := Option.some.inj found
            have inside : isWordChar c = true := by
              simp only [isWordStart, isWordChar, Char.isAlphanum, Bool.or_eq_true] at start ⊢
              exact start.imp Or.inl id
            simp [Lexeme.length, List.takeWhile_cons_of_pos inside]
          next =>
            obtain rfl := Option.some.inj found
            exact Nat.le_refl 1

end Lox
