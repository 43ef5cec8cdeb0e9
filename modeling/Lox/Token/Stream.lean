import Lox.Cursor
import Lox.Token.Lexeme

set_option autoImplicit false

namespace Lox

inductive ScanFault where
  | unexpectedCharacter (c : Char)
  | unterminatedString
deriving DecidableEq

def ScanFault.message : ScanFault → String
  | unexpectedCharacter _ => "Unexpected character."
  | unterminatedString => "Unterminated string."

/-- A piece of text that is no token, and the line it is reported on. -/
structure ScanError where
  fault : ScanFault
  line : Nat
deriving DecidableEq

def ScanError.diagnostic (e : ScanError) : Diagnostic :=
  ⟨e.line, .unnamed, e.fault.message⟩

/-- What a lexeme is worth: a token or an error. `text` is the text of the lexeme and `line` the
line it starts on; a string that has no end is reported on the last line it reaches. -/
def Lexeme.item (text : String) (line : Nat) : Lexeme → Except ScanError Token
  | symbol type _ => .ok ⟨type, text, none, line⟩
  | number digits =>
    .ok ⟨.number, text, some (.number (Number.ofDecimal (Decimal.ofText digits))), line⟩
  | word letters =>
    .ok ⟨(TokenType.keyword? (String.ofList letters)).getD .identifier, text, none, line⟩
  | string contents => .ok ⟨.string, text, some (.string (String.ofList contents)), line⟩
  | openString contents => .error ⟨.unterminatedString, lineAfter line contents⟩
  | stray c => .error ⟨.unexpectedCharacter c, line⟩

/-- The place that the scanning of a source has reached. -/
structure TokenStream where
  cursor : Cursor
  /-- Whether the end-of-input token has been yielded. -/
  ended : Bool

namespace TokenStream

def ofSource (source : String) : TokenStream :=
  ⟨Cursor.ofSource source, false⟩

def next (s : TokenStream) : Option (Except ScanError Token) × TokenStream :=
  if s.ended then (none, s)
  else
    let start := s.cursor.skip (gapLength s.cursor.rest)
    match Lexeme.first? start.rest with
    | none => (some (.ok (Token.endOfInput start.line)), ⟨start, true⟩)
    | some lexeme =>
      (some (lexeme.item (start.ahead lexeme.length) start.line),
        ⟨start.skip lexeme.length, false⟩)

def answers : Nat → TokenStream → List (Option (Except ScanError Token))
  | 0, _ => []
  | n + 1, s =>
    let (item, later) := s.next
    item :: answers n later

def remaining (s : TokenStream) : Nat :=
  if s.ended then 0 else s.cursor.rest.length + 1

theorem remaining_next {s later : TokenStream} {item : Except ScanError Token}
    (yielded : s.next = (some item, later)) : later.remaining < s.remaining := by
  simp only [next] at yielded
  split at yielded
  next => simp at yielded
  next running =>
    split at yielded
    next =>
      obtain ⟨_, rfl⟩ := Prod.mk.inj yielded
      simp [remaining, running]
    next lexeme found =>
      obtain ⟨_, rfl⟩ := Prod.mk.inj yielded
      have taken := Lexeme.one_le_length found
      have present : (s.cursor.rest.drop (gapLength s.cursor.rest)).length ≠ 0 := by
        intro empty
        rw [Cursor.rest_skip, List.length_eq_zero_iff.1 empty] at found
        simp [Lexeme.first?] at found
      simp only [List.length_drop] at present
      simp only [remaining, running, Cursor.rest_skip, List.length_drop, Bool.false_eq_true,
        ↓reduceIte]
      omega

def items (s : TokenStream) : List (Except ScanError Token) :=
  match yielded : s.next with
  | (none, _) => []
  | (some item, later) =>
    have : later.remaining < s.remaining := remaining_next yielded
    item :: later.items
termination_by s.remaining

def tokens (s : TokenStream) : List Token :=
  s.items.filterMap fun item => item.toOption

def errors (s : TokenStream) : List ScanError :=
  s.items.filterMap fun
    | .ok _ => none
    | .error e => some e

end TokenStream

/-- The tokens of a source text, the end-of-input token included, or all its errors. -/
def scan (source : String) : Except Diagnostics (List Token) :=
  let stream := TokenStream.ofSource source
  if stream.errors.isEmpty then .ok stream.tokens
  else .error (stream.errors.map ScanError.diagnostic)

end Lox
