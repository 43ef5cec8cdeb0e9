import Lox.Proofs.Parser.Simulation
import Lox.Proofs.Program.Faults
import Lox.Proofs.Token.Literal

set_option autoImplicit false

namespace Lox

namespace Parser

theorem State.value?_eq_none_of_step {s : State} {t : Token}
    (stuck : s.step t = .error .expectedExpression) : t.value? = none := by
  cases s with
  | expecting frames =>
    simp only [State.step] at stuck
    split at stuck
    next => cases stuck
    next =>
      split at stuck
      next => cases stuck
      next =>
        split at stuck
        next => cases stuck
        next noValue => exact noValue
  | complete frames operand =>
    simp only [State.step] at stuck
    split at stuck
    next => cases stuck
    next =>
      split at stuck
      next => split at stuck <;> cases stuck
      next => cases stuck

theorem State.value?_eq_none_of_run {s : State} {tokens rest : List Token}
    (failed : s.run tokens = .error ⟨.expectedExpression, rest⟩) :
    ∀ t ∈ rest.head?, t.value? = none := by
  induction tokens generalizing s with
  | nil =>
    have nothing : rest = [] := List.suffix_nil.mp (State.rest_suffix_of_run failed)
    simp [nothing]
  | cons t tokens ih =>
    rw [State.run] at failed
    split at failed
    next later stepped => exact ih failed
    next fault stuck =>
      obtain ⟨rfl, rfl⟩ := Failure.mk.inj (Except.error.inj failed)
      intro first head
      obtain rfl := Option.some.inj head
      exact State.value?_eq_none_of_step stuck

/-- The token that an attempt blames for starting no expression is no operand by itself. -/
theorem StandsIn.value?_eq_none_of_parse {list : List Token} {p : Parser} {error : SyntaxError}
    (stands : StandsIn list p) (failed : p.parse.1 = .error error)
    (blames : error.fault = .expectedExpression) : error.token.value? = none := by
  simp only [Parser.parse] at failed
  split at failed
  next => cases failed
  next failure stopped =>
    obtain ⟨fault, rest⟩ := failure
    obtain rfl := Except.error.inj failed
    obtain rfl : fault = .expectedExpression := blames
    have noValue := State.value?_eq_none_of_run stopped
    cases rest with
    | nil => exact stands.value?_ending
    | cons t rest => exact noValue t rfl

theorem Fault.message_injective : Function.Injective Fault.message := by
  intro f g same
  cases f <;> cases g <;> simp [Fault.message] at same ⊢

end Parser

section Source

open TokenStream

variable {source : String} {e : Expr} {t : Token}

theorem mem_tokens_of_consistsOf {tokens : List Token}
    (consists : ConsistsOf firstLine source.toList tokens) (member : t ∈ tokens) :
    t ∈ (ofSource source).tokens := by
  rw [(tokens_of_items (items_of_consistsOf consists)).1]
  exact List.mem_append_left _ member

theorem genuine_of_mem_tokens (member : t ∈ (ofSource source).tokens)
    (running : t.type ≠ .endOfInput) : t.Genuine := by
  have ⟨whole, genuine⟩ := tokens_eq_words_append source
  rw [whole] at member
  rcases List.mem_append.mp member with word | last
  · exact genuine t word
  · exact absurd (congrArg Token.type (List.mem_singleton.mp last)) running

/-- No number and no string is blamed for starting no expression. -/
theorem type_of_expectedExpression {error : SyntaxError}
    (failed : (Parser.ofTokens (ofSource source).tokens).parse.1 = .error error)
    (blames : error.fault = .expectedExpression) :
    error.token.type ∉ [TokenType.number, .string] := by
  intro carries
  have scanned := isScanned_of_mem_tokens (concerns_of_parse failed).1
  obtain ⟨value, found⟩ := scanned.exists_value? carries
  have stands := Parser.standsIn_ofTokens (ofSource source).tokens
  rw [stands.value?_eq_none_of_parse failed blames] at found
  cases found

theorem diagnostic_ne_of_parse {error : SyntaxError}
    (failed : (Parser.ofTokens (ofSource source).tokens).parse.1 = .error error)
    (member : t ∈ (ofSource source).tokens) (carries : t.type ∈ [TokenType.number, .string]) :
    error.diagnostic ≠ t.diagnostic Parser.Fault.expectedExpression.message := by
  intro same
  have running : t.type ≠ .endOfInput := fun ends => absurd (ends ▸ carries) (by decide)
  obtain ⟨_, location, message⟩ := Diagnostic.mk.inj same
  rw [Token.location, Token.location, if_neg running] at location
  split at location
  next => cases location
  next running' =>
    have first := genuine_of_mem_tokens (concerns_of_parse failed).1 running'
    have second := genuine_of_mem_tokens member running
    have type := first.type_eq second (Location.atLexeme.inj location)
    apply type_of_expectedExpression failed (Parser.Fault.message_injective message)
    rwa [type]

theorem diagnostic_ne_of_parseSource {diagnostics : Diagnostics}
    (failed : parseSource source = .error diagnostics) (member : t ∈ (ofSource source).tokens)
    (carries : t.type ∈ [TokenType.number, .string]) :
    t.diagnostic Parser.Fault.expectedExpression.message ∉ diagnostics := by
  intro found
  rcases mem_diagnostics failed _ found with ⟨e, _, same⟩ | ⟨error, stopped, same⟩
  · have running : t.type ≠ .endOfInput := fun ends => absurd (ends ▸ carries) (by decide)
    have location := congrArg Diagnostic.location same
    rw [Token.diagnostic, Token.location, if_neg running] at location
    cases location
  · exact diagnostic_ne_of_parse stopped member carries same.symm

theorem Token.IsScanned.isUnsigned {n : Number} (scanned : t.IsScanned)
    (stands : t.StandsFor (.number n)) : n.IsUnsigned := by
  obtain ⟨isNumber, literal⟩ := stands
  obtain ⟨_, m, literal', _, unsigned⟩ := scanned.number isNumber
  rw [literal] at literal'
  obtain rfl := Literal.number.inj (Option.some.inj literal')
  exact unsigned

/-- The numbers of a tree are those that numerals stand for. -/
theorem isUnsigned_of_parseSource (read : parseSource source = .ok e) {n : Number}
    (member : .literal (.number n) ∈ e.postorder) : n.IsUnsigned := by
  obtain ⟨tokens, consists, _, spelled⟩ := (parseSource_eq_ok_iff source e).mp read
  obtain ⟨t, inTokens, stands⟩ := spelled.exists_readFrom member
  exact (isScanned_of_mem_tokens (mem_tokens_of_consistsOf consists inTokens)).isUnsigned stands

/-- Scanned tokens carry the literals that the parser relies on. Every token of a source, whatever
errors there are between them, has the literal that goes with its type and its text: a number is a
numeral and stands for the double nearest to it, a string stands for the text between its quotes, no
other token has a literal, and the end of input alone has no text. So the parser never blames a
number or a string for starting no expression, no such diagnostic is among those of the source, and
the numbers of a tree are neither negative nor NaNs. -/
theorem scanned_literals_suffice (source : String) :
    (∀ t ∈ (ofSource source).tokens, t.IsScanned) ∧
      (∀ error, (Parser.ofTokens (ofSource source).tokens).parse.1 = .error error →
        error.fault = .expectedExpression → error.token.type ∉ [TokenType.number, .string]) ∧
      (∀ diagnostics, parseSource source = .error diagnostics →
        ∀ t ∈ (ofSource source).tokens, t.type ∈ [TokenType.number, .string] →
          t.diagnostic Parser.Fault.expectedExpression.message ∉ diagnostics) ∧
      ∀ e, parseSource source = .ok e →
        ∀ n, .literal (.number n) ∈ e.postorder → n.IsUnsigned := by
  refine ⟨fun t member => isScanned_of_mem_tokens member,
    fun error failed blames => type_of_expectedExpression failed blames,
    fun diagnostics failed t member carries => diagnostic_ne_of_parseSource failed member carries,
    fun e read n member => isUnsigned_of_parseSource read member⟩

/-- A point without digits in front of it is no part of a numeral. It is the point that is blamed,
and the number behind it is a token with its literal. -/
theorem scanned_literals_suffice_point :
    let point : Token := ⟨.dot, ".", none, 1⟩
    let five : Token := ⟨.number, "5", some (.number (.ofDecimal ⟨5, 0⟩)), 1⟩
    parseSource "-.5" = .error [point.diagnostic "Expect expression."] ∧
      five ∈ (ofSource "-.5").tokens ∧ five.IsScanned ∧
      five.diagnostic "Expect expression." ∉ [point.diagnostic "Expect expression."] := by
  intro point five
  obtain ⟨scanned, _, blameless, _⟩ := scanned_literals_suffice "-.5"
  have failed : parseSource "-.5" = .error [point.diagnostic "Expect expression."] := by
    decide +kernel
  have member : five ∈ (ofSource "-.5").tokens := by decide +kernel
  exact ⟨failed, member, scanned five member, blameless _ failed five member (by decide)⟩

end Source

end Lox
