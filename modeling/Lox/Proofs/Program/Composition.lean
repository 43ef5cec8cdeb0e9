import Lox.Interpreter
import Lox.Proofs.Expr.Moved
import Lox.Proofs.Parser.Source

set_option autoImplicit false

namespace Lox

/-- The operators with two operands and how they are written. -/
def binaryOperators : List (TokenType × String) :=
  [(.equalEqual, "=="), (.bangEqual, "!="), (.greater, ">"), (.greaterEqual, ">="), (.less, "<"),
    (.lessEqual, "<="), (.plus, "+"), (.minus, "-"), (.star, "*"), (.slash, "/")]

def lineFeeds (source : String) : Nat :=
  source.toList.count '\n'

/-- What becomes of a sink to which a value is written. -/
def Value.written (v : Value) (sink : Sink) : Except RunError Unit × Sink :=
  match sink.write v.output with
  | (.ok _, later) => (.ok (), later)
  | (.error error, later) => (.error (.output error), later)

def joined (first operator second : String) : String :=
  "(" ++ first ++ "\n) " ++ operator ++ " (" ++ second ++ "\n)"

def asText (source : String) : String :=
  "(" ++ source ++ "\n) + \"\""

theorem binaryOperators_table : ∀ entry ∈ binaryOperators,
    1 ≤ entry.1.level ∧ gapLength entry.2.toList = 0 ∧ entry.2.toList.count '\n' = 0 ∧
      Lexeme.first? entry.2.toList = some (.symbol entry.1 entry.2.toList.length) := by
  decide

section Tokens

variable {line : Nat} {text behind : List Char} {tokens others : List Token}

theorem itemAt_operator {type : TokenType} {operator : String}
    (listed : (type, operator) ∈ binaryOperators) (line : Nat) :
    ItemAt line operator.toList [] (.ok ⟨type, operator, none, line⟩) := by
  obtain ⟨_, _, _, first⟩ := binaryOperators_table _ listed
  have isItem := itemAt_of_first? first line
  rw [Lexeme.length, List.take_length, List.drop_length, String.ofList_toList] at isItem
  exact isItem

theorem ConsistsOf.operator_append {type : TokenType} {operator : String}
    (listed : (type, operator) ∈ binaryOperators) (more : ConsistsOf line behind tokens) :
    ConsistsOf line (' ' :: (operator.toList ++ ' ' :: behind))
      (⟨type, operator, none, line⟩ :: tokens) := by
  obtain ⟨_, alone, sameLine, _⟩ := binaryOperators_table _ listed
  have isItem := itemAt_operator listed line
  have stops : AgreesToBlank [] (' ' :: behind) := .blank (by decide) [] behind
  have space : ∀ rest, Gap rest [' '] := fun rest => .blank (by decide) .nil
  have noGap : gapLength (operator.toList ++ ' ' :: behind) = 0 := by
    apply gapLength_append_of_agrees isItem.text_ne_nil stops
    rwa [List.append_nil]
  have spaced : ConsistsOf line (' ' :: behind) tokens := gap_append (space behind) more
  have whole : ConsistsOf line (operator.toList ++ ' ' :: behind)
      (⟨type, operator, none, line⟩ :: tokens) := by
    apply token_append noGap (isItem.of_agrees stops)
    rwa [lineAfter, sameLine]
  exact gap_append (space _) whole

theorem itemAt_single {c : Char} {type : TokenType} (listed : (c, type) ∈ singles) (line : Nat)
    (behind : List Char) :
    ItemAt line [c] behind (.ok ⟨type, String.ofList [c], none, line⟩) := by
  have first : Lexeme.first? (c :: behind) = some (.symbol type 1) :=
    Lexeme.first?_symbol (symbol?_single listed)
  exact itemAt_of_first? first line

/-- A token of one character in front of other tokens. A slash could start a comment there. -/
theorem ConsistsOf.single_append {c : Char} {type : TokenType} (listed : (c, type) ∈ singles)
    (notSlash : c ≠ '/') (more : ConsistsOf line behind tokens) :
    ConsistsOf line (c :: behind) (⟨type, String.ofList [c], none, line⟩ :: tokens) := by
  have table : ∀ entry ∈ singles, entry.1 ∉ blanks ∧ [entry.1].count '\n' = 0 := by decide
  obtain ⟨notBlank, noLineFeed⟩ := table _ listed
  have noGap : gapLength ([c] ++ behind) = 0 :=
    gapLength_cons_eq_zero_iff.mpr ⟨notBlank, fun slashes => notSlash slashes.1⟩
  apply token_append noGap (itemAt_single listed line behind)
  rwa [lineAfter, noLineFeed]

theorem ConsistsOf.parenthesized (inside : ConsistsOf line text tokens)
    (more : ConsistsOf (lineAfter line text + 1) behind others) :
    ConsistsOf line ('(' :: (text ++ '\n' :: ')' :: behind))
      (⟨.leftParen, "(", none, line⟩ ::
        (tokens ++ ⟨.rightParen, ")", none, lineAfter line text + 1⟩ :: others)) := by
  have lineFeed : Gap (')' :: behind) ['\n'] := .blank (by decide) .nil
  have closing : ConsistsOf (lineAfter line text + 1) (')' :: behind)
      (⟨.rightParen, ")", none, lineAfter line text + 1⟩ :: others) :=
    more.single_append (by decide) (by decide)
  have body := inside.append (gap_append lineFeed closing)
  exact body.single_append (by decide) (by decide)

end Tokens

section Sources

variable {first second source operator : String} {e₁ e₂ right : Expr} {type : TokenType}
  {rest : List Char} {word : List Token}

/-- A source in parentheses, an operator and an operand that no operator can break up. -/
theorem parseSource_operator (listed : (type, operator) ∈ binaryOperators)
    (read : parseSource first = .ok e₁) (consists : ConsistsOf (lineFeeds first + 2) rest word)
    (formed : right.WellFormed) (spelled : right.Spells word)
    (atomic : right.level = TokenType.operandLevel)
    (text : source.toList =
      '(' :: (first.toList ++ '\n' :: ')' :: ' ' :: (operator.toList ++ ' ' :: rest))) :
    parseSource source =
      .ok (.binary (.grouping e₁) ⟨type, operator, none, lineFeeds first + 2⟩ right) := by
  obtain ⟨tokens, inside, firstFormed, firstSpelled⟩ := (parseSource_eq_ok_iff first e₁).mp read
  have line : lineAfter firstLine first.toList + 1 = lineFeeds first + 2 := by
    rw [lineAfter, firstLine, lineFeeds]
    omega
  have behind := consists.operator_append listed
  rw [← line] at behind
  have whole := inside.parenthesized behind
  rw [← text, line] at whole
  apply (parseSource_eq_ok_iff_of_consistsOf whole _).mpr
  obtain ⟨isBinary, _⟩ := binaryOperators_table _ listed
  have reaches := type.level_lt_operandLevel
  refine ⟨⟨isBinary, Nat.le_of_lt reaches, ?_, fun _ => rfl, firstFormed, formed⟩, ?_⟩
  · rw [atomic]
    exact reaches
  · have grouped : (Expr.grouping e₁).Spells (⟨.leftParen, "(", none, firstLine⟩ ::
        (tokens ++ [⟨.rightParen, ")", none, lineFeeds first + 2⟩])) :=
      .grouping rfl firstSpelled rfl
    have joined : (Expr.binary (.grouping e₁) ⟨type, operator, none, lineFeeds first + 2⟩
        right).Spells _ := .binary grouped spelled
    rwa [List.cons_append, List.append_assoc, List.singleton_append] at joined

theorem parseSource_joined (listed : (type, operator) ∈ binaryOperators)
    (firstRead : parseSource first = .ok e₁) (secondRead : parseSource second = .ok e₂) :
    parseSource (joined first operator second) =
      .ok (.binary (.grouping e₁) ⟨type, operator, none, lineFeeds first + 2⟩
        (.grouping (e₂.moved (lineFeeds first + 1)))) := by
  obtain ⟨tokens, consists, formed, spelled⟩ := (parseSource_eq_ok_iff second e₂).mp secondRead
  have moved := consists.moved (lineFeeds first + 1)
  have line : firstLine + (lineFeeds first + 1) = lineFeeds first + 2 := by
    rw [firstLine]
    omega
  rw [line] at moved
  apply parseSource_operator listed firstRead (moved.parenthesized (.nil _))
  · exact formed.moved _
  · exact .grouping rfl (spelled.moved _) rfl
  · rfl
  · simp only [joined, String.toList_append]
    simp

theorem parseSource_asText (read : parseSource source = .ok e₁) :
    parseSource (asText source) =
      .ok (.binary (.grouping e₁) ⟨.plus, "+", none, lineFeeds source + 2⟩
        (.literal (.string ""))) := by
  have empty : ConsistsOf (lineFeeds source + 2) ['"', '"'] _ :=
    .string_append List.not_mem_nil (.nil _)
  apply parseSource_operator (by decide) read empty
  · trivial
  · exact .literal ⟨rfl, rfl⟩
  · rfl
  · simp [asText]

theorem run_of_parseSource (read : parseSource source = .ok e₁) (sink : Sink) :
    run source sink =
      match e₁.evaluate with
      | .error error => (.error (.runtime error), sink)
      | .ok value => value.written sink := by
  rw [run, read]
  rfl

theorem evaluate_joined (operator : Token) (left right : Expr) (distance : Nat) :
    (Expr.binary (.grouping left) operator (.grouping (right.moved distance))).evaluate =
      match left.evaluate with
      | .error error => .error error
      | .ok a =>
        match right.evaluate with
        | .error error => .error (error.moved distance)
        | .ok b => operator.applied (a.binary operator.type b) := by
  have moved := Expr.evaluate_moved distance right
  rw [Expr.evaluate_binary, Expr.evaluate, Expr.evaluate, moved]
  cases left.evaluate with
  | error error => rfl
  | ok a => cases right.evaluate <;> rfl

theorem plus_empty (v : Value) : v.plus (.string "") = .ok (.string v.text) := by
  cases v <;> simp [Value.plus, Value.text]

theorem run_asText (read : parseSource source = .ok e₁) (sink : Sink) :
    run (asText source) sink = run source sink := by
  rw [run_of_parseSource (parseSource_asText read), run_of_parseSource read, Expr.evaluate_binary,
    Expr.evaluate, Expr.evaluate]
  cases e₁.evaluate with
  | error error => rfl
  | ok v =>
    rw [Except.bind, Except.bind, Value.binary, plus_empty]
    rfl

/-- Programs compose. Two sources that are read as trees, joined by an operator, are read as the
operator over both trees, and the joined program fails as the first one does, else as the second one
does further down, else it makes one step on the two values and writes the text of the result with a
line feed behind it. Joined with the empty string, a program writes what it writes alone or fails as
it fails alone. -/
theorem run_joined (firstRead : parseSource first = .ok e₁) :
    (∀ second e₂ type operator, (type, operator) ∈ binaryOperators →
      parseSource second = .ok e₂ →
        parseSource (joined first operator second) =
            .ok (.binary (.grouping e₁) ⟨type, operator, none, lineFeeds first + 2⟩
              (.grouping (e₂.moved (lineFeeds first + 1)))) ∧
          ∀ sink, run (joined first operator second) sink =
            match e₁.evaluate with
            | .error error => (.error (.runtime error), sink)
            | .ok a =>
              match e₂.evaluate with
              | .error error => (.error (.runtime (error.moved (lineFeeds first + 1))), sink)
              | .ok b =>
                match a.binary type b with
                | .error fault => (.error (.runtime ⟨fault, operator, lineFeeds first + 2⟩), sink)
                | .ok value =>
                  match sink.write (Bytes.ofText (value.text ++ "\n")) with
                  | (.ok _, later) => (.ok (), later)
                  | (.error error, later) => (.error (.output error), later)) ∧
      ∀ sink, run (asText first) sink = run first sink := by
  refine ⟨fun second e₂ type operator listed secondRead => ?_, run_asText firstRead⟩
  have read := parseSource_joined listed firstRead secondRead
  refine ⟨read, fun sink => ?_⟩
  rw [run_of_parseSource read, evaluate_joined]
  cases e₁.evaluate with
  | error error => rfl
  | ok a =>
    cases e₂.evaluate with
    | error error => rfl
    | ok b =>
      simp only
      cases a.binary type b <;> rfl

/-- A comment at the end of the first source does not reach into the second one, and an error of the
second one is reported where it now stands. Two line feeds joined are written with a third one. -/
theorem run_joined_behind_comment :
    let first := "\"\n\" // ("
    let second := "-\ntrue"
    parseSource first = .ok (.literal (.string "\n")) ∧
      parseSource second = .ok (.unary ⟨.minus, "-", none, 1⟩ (.literal (.boolean true))) ∧
      (∀ sink, run (joined first "/" second) sink =
        (.error (.runtime ⟨.operandMustBeNumber, "-", 3⟩), sink)) ∧
      run (joined first "+" first) .unlimited = (.ok (), ⟨[10, 10, 10], none, .sinkFull⟩) ∧
      run (joined first "+" first) (.limited 2) =
        (.error (.output .sinkFull), ⟨[10, 10], some 2, .sinkFull⟩) ∧
      ∀ sink, run (asText first) sink = run first sink := by
  intro first second
  have firstRead : parseSource first = .ok (.literal (.string "\n")) := by
    have comment : Gap [] [' ', '/', '/', ' ', '('] :=
      .blank (by decide) (@Gap.comment [] [' ', '('] [] (by decide) (.inl rfl) .nil)
    have behind : ConsistsOf 2 [' ', '/', '/', ' ', '('] [] :=
      .gap (longest_gap_iff.mpr ⟨comment, rfl⟩)
    have noQuote : '"' ∉ ['\n'] := by decide
    have text : first.toList = '"' :: (['\n'] ++ '"' :: [' ', '/', '/', ' ', '(']) := by
      simp [first]
    have consists := ConsistsOf.string_append noQuote behind
    rw [← text] at consists
    exact (parseSource_eq_ok_iff_of_consistsOf consists _).mpr ⟨trivial, .literal ⟨rfl, rfl⟩⟩
  have secondRead :
      parseSource second = .ok (.unary ⟨.minus, "-", none, 1⟩ (.literal (.boolean true))) := by
    have found : Lexeme.first? ['t', 'r', 'u', 'e'] = some (.word ['t', 'r', 'u', 'e']) := rfl
    have word : ConsistsOf 2 ['t', 'r', 'u', 'e'] [⟨.kwTrue, "true", none, 2⟩] :=
      .token_append rfl (itemAt_of_first? found 2) (.nil 2)
    have lineFeed : Gap ['t', 'r', 'u', 'e'] ['\n'] := .blank (by decide) .nil
    have operand : ConsistsOf 1 ['\n', 't', 'r', 'u', 'e'] [⟨.kwTrue, "true", none, 2⟩] :=
      .gap_append lineFeed word
    have minus : ('-', TokenType.minus) ∈ singles := by decide
    have consists := ConsistsOf.token_append rfl (itemAt_single minus 1 _) operand
    have text : second.toList = ['-'] ++ ['\n', 't', 'r', 'u', 'e'] := by simp [second]
    rw [← text] at consists
    exact (parseSource_eq_ok_iff_of_consistsOf consists _).mpr
      ⟨⟨by decide, by decide, trivial⟩, .unary (.literal rfl)⟩
  obtain ⟨composed, alone⟩ := run_joined firstRead
  have joinedRun := (composed second _ .slash "/" (by decide) secondRead).2
  have oneBreak : lineFeeds first = 1 := by decide
  rw [oneBreak] at joinedRun
  have twice := (composed first _ .plus "+" (by decide) firstRead).2
  have written : run (joined first "+" first) .unlimited =
      (.ok (), ⟨[10, 10, 10], none, .sinkFull⟩) := by
    rw [twice]
    rfl
  have full : run (joined first "+" first) (.limited 2) =
      (.error (.output .sinkFull), ⟨[10, 10], some 2, .sinkFull⟩) := by
    rw [twice]
    rfl
  exact ⟨firstRead, secondRead, joinedRun, written, full, alone⟩

end Sources

end Lox
