import Lox.Proofs.Number.Decimal
import Lox.Proofs.Program.Composition
import Lox.Proofs.Token.Layout

set_option autoImplicit false

namespace Lox

namespace Value

/-- The values that a program can be given as a text. The others are strings, which are printed
without quotes, and the numbers that are printed as words. -/
def IsReadable : Value → Prop
  | number n => n.IsFinite
  | string _ => False
  | boolean _ | nil => True

/-- The tree that the text of a value is read as. A minus sign is an operator. -/
def reading : Value → Expr
  | number n =>
    if n.isNegative then .unary ⟨.minus, "-", none, firstLine⟩ (.literal (.number n.magnitude))
    else .literal (.number n)
  | v => .literal v

end Value

def Sink.HasRoom (s : Sink) (data : Bytes) : Prop :=
  data.length ≤ s.room data.length

section Tokens

variable {line : Nat} {text behind : List Char} {type : TokenType}

theorem matches_keyword {word : String} (listed : (word, type) ∈ keywords) :
    Matches word.toList type := by
  have table : ∀ entry ∈ keywords,
      Lexeme.first? entry.1.toList = some (.word entry.1.toList) := by decide
  have isItem := itemAt_of_first? (table _ listed) firstLine
  have matched := isItem.genuine.matched
  simp only [Lexeme.length, List.take_length, String.ofList_toList] at matched
  rwa [(keyword?_eq_some_iff _ _).mpr listed] at matched

theorem ConsistsOf.of_matches (matched : Matches text type) (isLayout : IsLayout behind)
    (next : BlankNext behind) :
    ConsistsOf line (text ++ behind)
      [⟨type, String.ofList text, literalOf type text, line⟩] := by
  have nothing : ConsistsOf (lineAfter line text) (behind ++ []) [] :=
    .gap_append (isLayout.gap []) (.nil _)
  rw [List.append_nil] at nothing
  exact .matched_append matched next nothing

end Tokens

namespace Value

variable {v : Value} {behind : String}

theorem wellFormed_reading (v : Value) : v.reading.WellFormed := by
  cases v with
  | number n =>
    rw [reading]
    split
    · have listed : TokenType.minus ∈ [.bang, .minus] := by decide
      have reaches : TokenType.plus.level ≤ TokenType.operandLevel := by decide
      exact ⟨listed, reaches, trivial⟩
    · trivial
  | string s => trivial
  | boolean b => trivial
  | nil => trivial

/-- The tree of a printed value has that value, to the bit. -/
theorem evaluate_reading (v : Value) : v.reading.evaluate = .ok v := by
  cases v with
  | number n =>
    rw [reading]
    split
    next negative =>
      have value := Number.neg_magnitude negative
      show Except.ok (number (-n.magnitude)) = _
      rw [value]
    next => rfl
  | string s => rfl
  | boolean b => rfl
  | nil => rfl

/-- The text of a readable value, with any layout behind it, consists of the tokens of its tree. -/
theorem IsReadable.consistsOf (readable : v.IsReadable) (isLayout : IsLayout behind.toList)
    (next : BlankNext behind.toList) :
    ∃ tokens, ConsistsOf firstLine (v.text ++ behind).toList tokens ∧
      v.reading.Spells tokens := by
  rw [String.toList_append]
  cases v with
  | number n =>
    have finite : n.IsFinite := readable
    have literal := finite.literalOf_printedDigits
    have matched : Matches n.printedDigits .number := Decimal.matches_text _
    have digits : ConsistsOf firstLine (n.printedDigits ++ behind.toList)
        [⟨.number, String.ofList n.printedDigits, some (.number n.magnitude), firstLine⟩] := by
      rw [← literal]
      exact .of_matches matched isLayout next
    rw [text, textWith, finite.text_eq, reading]
    split
    next negative =>
      have minus : ConsistsOf firstLine ('-' :: (n.printedDigits ++ behind.toList))
          (⟨.minus, "-", none, firstLine⟩ :: _) := digits.single_append (by decide) (by decide)
      rw [String.toList_append, String.toList_ofList (l := n.printedDigits)]
      exact ⟨_, minus, .unary (.literal ⟨rfl, rfl⟩)⟩
    next positive =>
      rw [Number.magnitude_eq (Bool.eq_false_of_not_eq_true positive)] at digits
      rw [String.toList_ofList]
      exact ⟨_, digits, .literal ⟨rfl, rfl⟩⟩
  | string s => exact absurd readable id
  | boolean b =>
    cases b with
    | true =>
      have matched : Matches "true".toList .kwTrue := matches_keyword (by decide)
      exact ⟨_, .of_matches matched isLayout next, .literal rfl⟩
    | false =>
      have matched : Matches "false".toList .kwFalse := matches_keyword (by decide)
      exact ⟨_, .of_matches matched isLayout next, .literal rfl⟩
  | nil =>
    have matched : Matches "nil".toList .kwNil := matches_keyword (by decide)
    exact ⟨_, .of_matches matched isLayout next, .literal rfl⟩

theorem IsReadable.parseSource_text (readable : v.IsReadable) (isLayout : IsLayout behind.toList)
    (next : BlankNext behind.toList) : parseSource (v.text ++ behind) = .ok v.reading := by
  obtain ⟨tokens, consists, spelled⟩ := readable.consistsOf isLayout next
  exact (parseSource_eq_ok_iff_of_consistsOf consists _).mpr ⟨v.wellFormed_reading, spelled⟩

end Value

theorem Sink.write_of_hasRoom {s : Sink} {data : Bytes} (room : s.HasRoom data) :
    s.write data = (.ok (), { s with written := s.written ++ data }) := by
  have taken : ¬ s.room data.length < data.length := Nat.not_lt.mpr room
  simp only [write, taken, ↓reduceIte, List.take_of_length_le room]

section Runs

variable {v : Value} {source : String} {e : Expr}

/-- Two programs with one value do the same to every sink. -/
theorem run_eq_written (read : parseSource source = .ok e) (value : e.evaluate = .ok v)
    (sink : Sink) : run source sink = v.written sink := by
  rw [run_of_parseSource read, value]

/-- What is printed can be read back. The text of a finite number, a boolean or `nil` is read as a
tree with that very value, and as a program it prints itself. So does the line that was printed for
the value by any program: run again, it does what that program does. -/
theorem run_text (readable : v.IsReadable) :
    (∃ e, parseSource v.text = .ok e ∧ e.evaluate = .ok v) ∧
      (∀ sink : Sink, sink.HasRoom (Bytes.ofText (v.text ++ "\n")) →
        run v.text sink =
          (.ok (), { sink with written := sink.written ++ Bytes.ofText (v.text ++ "\n") })) ∧
      ∀ source e, parseSource source = .ok e → e.evaluate = .ok v →
        ∀ sink, run v.text sink = run source sink ∧
          run (v.text ++ "\n") sink = run source sink := by
  have nothing : parseSource (v.text ++ "") = .ok v.reading := by
    apply readable.parseSource_text
    · exact .nil
    · exact fun c head => absurd head (Option.not_mem_none c)
  have lineFeed : parseSource (v.text ++ "\n") = .ok v.reading := by
    apply readable.parseSource_text
    · exact .blank (by decide) .nil
    · exact fun c head => Option.some.inj head ▸ (by decide : '\n' ∈ blanks)
  rw [String.append_empty] at nothing
  have value := v.evaluate_reading
  refine ⟨⟨v.reading, nothing, value⟩, fun sink room => ?_, fun source e read same sink => ?_⟩
  · rw [run_eq_written nothing value, Value.written, Value.output, Sink.write_of_hasRoom room]
  · rw [run_eq_written nothing value, run_eq_written lineFeed value, run_eq_written read same]
    exact ⟨rfl, rfl⟩

/-- The negative zero is printed as `-0`, which is read as a negation and has the sign bit again. -/
theorem run_text_negative_zero :
    let v := Value.number ⟨0x8000000000000000⟩
    v.IsReadable ∧ v.text = "-0" ∧ (∃ e, parseSource "-0" = .ok e ∧ e.evaluate = .ok v) ∧
      run "-0" .unlimited = (.ok (), ⟨Bytes.ofText "-0\n", none, .sinkFull⟩) ∧
      ∀ sink, run "-0\n" sink = run "-0" sink := by
  intro v
  have readable : v.IsReadable := ⟨by decide, by decide⟩
  have text : v.text = "-0" := by decide
  obtain ⟨⟨e, read, value⟩, prints, again⟩ := run_text readable
  rw [text] at read prints again
  refine ⟨readable, text, ⟨e, read, value⟩, ?_, fun sink => ?_⟩
  · exact prints .unlimited Nat.le.refl
  · exact (again "-0" e read value sink).2

end Runs

end Lox
