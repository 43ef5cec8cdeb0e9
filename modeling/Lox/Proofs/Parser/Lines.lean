import Lox.Proofs.Expr.Moved
import Lox.Proofs.Parser.Source
import Lox.Proofs.Token.Layout

set_option autoImplicit false

namespace Lox

def Expr.unlined : Expr → Expr
  | literal value => literal value
  | grouping inner => grouping inner.unlined
  | unary operator operand => unary operator.unlined operand.unlined
  | binary left operator right => binary left.unlined operator.unlined right.unlined

def RuntimeError.unlined (e : RuntimeError) : RuntimeError :=
  { e with line := noLine }

def ScanError.unlined (e : ScanError) : ScanError :=
  { e with line := noLine }

def SyntaxError.unlined (e : SyntaxError) : SyntaxError :=
  { e with token := e.token.unlined }

def Diagnostic.unlined (d : Diagnostic) : Diagnostic :=
  { d with line := noLine }

def unlinedOutcome : Except SyntaxError Expr → Except SyntaxError Expr
  | .ok e => .ok e.unlined
  | .error e => .error e.unlined

def unlinedResult : Except Diagnostics Expr → Except Diagnostics Expr
  | .ok e => .ok e.unlined
  | .error diagnostics => .error (diagnostics.map Diagnostic.unlined)

namespace Expr

theorem unlined_eq_mapOperators (e : Expr) : e.unlined = e.mapOperators Token.unlined := by
  induction e with
  | literal value => rfl
  | grouping inner ih => rw [unlined, mapOperators, ih]
  | unary operator operand ih => rw [unlined, mapOperators, ih]
  | binary left operator right ihl ihr => rw [unlined, mapOperators, ihl, ihr]

theorem evaluate_unlined (e : Expr) :
    e.unlined.evaluate = e.evaluate.mapError RuntimeError.unlined := by
  have sameType : ∀ t : Token, t.unlined.type = t.type := fun _ => rfl
  have applied : ∀ (t : Token) (outcome : Except RuntimeFault Value),
      t.unlined.applied outcome = (t.applied outcome).mapError RuntimeError.unlined := by
    intro t outcome
    cases outcome <;> rfl
  rw [unlined_eq_mapOperators]
  exact evaluate_mapOperators sameType applied e

/-- Trees that differ in no more than lines have the same value, or errors of the same kind at the
same operator. -/
theorem evaluate_of_unlined_eq {a b : Expr} (same : a.unlined = b.unlined) :
    (∃ value, a.evaluate = .ok value ∧ b.evaluate = .ok value) ∨
      ∃ error other, a.evaluate = .error error ∧ b.evaluate = .error other ∧
        error.fault = other.fault ∧ error.operator = other.operator := by
  have outcomes := congrArg evaluate same
  rw [evaluate_unlined, evaluate_unlined] at outcomes
  cases first : a.evaluate with
  | ok value =>
    cases second : b.evaluate with
    | ok other =>
      rw [first, second] at outcomes
      obtain rfl := Except.ok.inj outcomes
      exact .inl ⟨value, rfl, rfl⟩
    | error other =>
      rw [first, second] at outcomes
      cases outcomes
  | error error =>
    cases second : b.evaluate with
    | ok value =>
      rw [first, second] at outcomes
      cases outcomes
    | error other =>
      rw [first, second] at outcomes
      obtain ⟨fault, operator, _⟩ := RuntimeError.mk.inj (Except.error.inj outcomes)
      exact .inr ⟨error, other, rfl, rfl, fault, operator⟩

end Expr

namespace Parser

def Frame.unlined : Frame → Frame
  | group => group
  | unary operator => unary operator.unlined
  | binary left operator => binary left.unlined operator.unlined

def State.unlined : State → State
  | expecting frames => expecting (frames.map Frame.unlined)
  | complete frames operand => complete (frames.map Frame.unlined) operand.unlined

def Failure.unlined (failure : Failure) : Failure :=
  { failure with rest := failure.rest.map Token.unlined }

def unlined (p : Parser) : Parser :=
  { p with pending := p.pending.map Token.unlined, ending := p.ending.unlined }

theorem close_unlined (level : Nat) (frames : List Frame) (operand : Expr) :
    close level (frames.map Frame.unlined) operand.unlined =
      ((close level frames operand).1.map Frame.unlined,
        (close level frames operand).2.unlined) := by
  induction frames generalizing operand with
  | nil => rfl
  | cons frame frames ih =>
    cases frame with
    | group => rfl
    | unary operator =>
      simp only [List.map_cons, Frame.unlined, close]
      by_cases low : level < TokenType.plus.level
      · simp only [if_pos low]
        exact ih (.unary operator operand)
      · simp only [if_neg low]
        rfl
    | binary left operator =>
      have sameLevel : operator.unlined.type.level = operator.type.level := rfl
      simp only [List.map_cons, Frame.unlined, close, sameLevel]
      by_cases low : level ≤ operator.type.level
      · simp only [if_pos low]
        exact ih (.binary left operator operand)
      · simp only [if_neg low]
        rfl

theorem step_unlined (t : Token) (s : State) :
    s.unlined.step t.unlined = (s.step t).map State.unlined := by
  have sameType : t.unlined.type = t.type := rfl
  have sameValue : t.unlined.value? = t.value? := rfl
  cases s with
  | expecting frames =>
    simp only [State.unlined, State.step, sameType, sameValue]
    by_cases isUnary : t.type.isUnary = true
    · simp only [if_pos isUnary]
      rfl
    by_cases opens : t.type = .leftParen
    · simp only [if_neg isUnary, if_pos opens]
      rfl
    · simp only [if_neg isUnary, if_neg opens]
      cases t.value? <;> rfl
  | complete frames operand =>
    simp only [State.unlined, State.step, sameType, close_unlined]
    by_cases isBinary : 0 < t.type.level
    · simp only [if_pos isBinary]
      rfl
    · simp only [if_neg isBinary]
      generalize close 0 frames operand = closed
      obtain ⟨left, inner⟩ := closed
      cases left with
      | nil => rfl
      | cons frame left =>
        cases frame with
        | group =>
          by_cases closes : t.type = .rightParen
          · simp only [List.map_cons, Frame.unlined, if_pos closes]
            rfl
          · simp only [List.map_cons, Frame.unlined, if_neg closes]
            rfl
        | unary operator => rfl
        | binary left operator => rfl

theorem finish_unlined (s : State) : s.unlined.finish = s.finish.map Expr.unlined := by
  cases s with
  | expecting frames => rfl
  | complete frames operand =>
    simp only [State.unlined, State.finish, close_unlined]
    generalize close 0 frames operand = closed
    obtain ⟨left, inner⟩ := closed
    cases left with
    | nil => rfl
    | cons frame left => cases frame <;> rfl

/-- A run over tokens on no line: one step at a time, the states and what is left of the tokens lose
their lines and nothing else. -/
theorem run_unlined (tokens : List Token) (s : State) :
    s.unlined.run (tokens.map Token.unlined) =
      match s.run tokens with
      | .ok e => .ok e.unlined
      | .error failure => .error failure.unlined := by
  induction tokens generalizing s with
  | nil =>
    simp only [List.map_nil, State.run, finish_unlined]
    cases s.finish <;> rfl
  | cons t rest ih =>
    simp only [List.map_cons, State.run, step_unlined]
    cases s.step t with
    | ok later => exact ih later
    | error fault => rfl

theorem current_unlined (p : Parser) (rest : List Token) :
    (p.unlined.moveTo (rest.map Token.unlined)).current = (p.moveTo rest).current.unlined := by
  cases rest <;> rfl

theorem parse_unlined (p : Parser) : p.unlined.parse.1 = unlinedOutcome p.parse.1 := by
  have ran : State.start.run p.unlined.pending = _ := run_unlined p.pending State.start
  simp only [parse, ran]
  cases State.start.run p.pending with
  | ok e => rfl
  | error failure =>
    have current := p.current_unlined failure.rest
    simp only [Failure.unlined, current]
    rfl

theorem unlined_ofTokens (tokens : List Token) :
    (ofTokens tokens).unlined =
      ⟨0, (tokens.map Token.unlined).takeWhile (·.type ≠ .endOfInput),
        ((tokens.map Token.unlined).find? (·.type = .endOfInput)).getD
          (Token.endOfInput noLine)⟩ := by
  have pending : (tokens.map Token.unlined).takeWhile (·.type ≠ .endOfInput) =
      (tokens.takeWhile (·.type ≠ .endOfInput)).map Token.unlined := List.takeWhile_map ..
  have found : (tokens.map Token.unlined).find? (·.type = .endOfInput) =
      (tokens.find? (·.type = .endOfInput)).map Token.unlined := List.find?_map ..
  rw [pending, found, unlined, ofTokens]
  cases tokens.find? (·.type = .endOfInput) <;> rfl

end Parser

section Source

variable {source other : String}

open TokenStream

/-- What a source is read as, on no line, is known from its tokens and its errors on no line. -/
theorem unlinedResult_parseSource (source : String) :
    unlinedResult (parseSource source) =
      let scanFaults := ((ofSource source).errors.map ScanError.unlined).map ScanError.diagnostic
      match unlinedOutcome (Parser.ofTokens (ofSource source).tokens).parse.1 with
      | .ok e => if scanFaults.isEmpty then .ok e else .error scanFaults
      | .error e => .error (scanFaults ++ [e.diagnostic]) := by
  have faults : ((ofSource source).errors.map ScanError.unlined).map ScanError.diagnostic =
      ((ofSource source).errors.map ScanError.diagnostic).map Diagnostic.unlined := by
    rw [List.map_map, List.map_map]
    rfl
  simp only [parseSource, faults, List.isEmpty_map]
  cases (Parser.ofTokens (ofSource source).tokens).parse.1 with
  | ok e =>
    simp only [unlinedOutcome]
    by_cases clean : (ofSource source).errors.isEmpty = true
    · simp only [if_pos clean]
      rfl
    · simp only [if_neg clean]
      rfl
  | error e =>
    simp only [unlinedOutcome, unlinedResult, List.map_append]
    rfl

theorem map_unlined_tokens
    (same : (words source).map Token.unlined = (words other).map Token.unlined) :
    (ofSource source).tokens.map Token.unlined = (ofSource other).tokens.map Token.unlined := by
  have ⟨first, _⟩ := tokens_eq_words_append source
  have ⟨second, _⟩ := tokens_eq_words_append other
  rw [first, second, List.map_append, List.map_append, same]
  rfl

theorem unlinedOutcome_of_words
    (same : (words source).map Token.unlined = (words other).map Token.unlined) :
    unlinedOutcome (Parser.ofTokens (ofSource source).tokens).parse.1 =
      unlinedOutcome (Parser.ofTokens (ofSource other).tokens).parse.1 := by
  rw [← Parser.parse_unlined, ← Parser.parse_unlined, Parser.unlined_ofTokens,
    Parser.unlined_ofTokens, map_unlined_tokens same]

theorem scan_layout (source : String) (layout : Layout (words source).length) :
    ∃ tokens, scan (layout.around (words source)) =
        .ok (tokens ++ [ending (layout.around (words source))]) ∧
      tokens.map Token.unlined = (words source).map Token.unlined := by
  obtain ⟨tokens, items, same⟩ := items_around source layout
  obtain ⟨sameTokens, noErrors⟩ := tokens_of_items items
  exact ⟨tokens, by rw [scan_of_no_errors noErrors, sameTokens], same⟩

/-- Layout between tokens never matters. However the tokens of a source are laid out, the text has
no scan errors and is scanned as these tokens up to their lines. And two sources with the same
tokens up to lines are read as the same tree up to the lines of its operators, or fail with the same
errors up to their lines if their scan errors are the same. -/
theorem layout_never_matters (source : String) :
    (∀ layout : Layout (words source).length, ∃ tokens,
        scan (layout.around (words source)) =
            .ok (tokens ++ [ending (layout.around (words source))]) ∧
          tokens.map Token.unlined = (words source).map Token.unlined) ∧
      ∀ other, (words source).map Token.unlined = (words other).map Token.unlined →
        unlinedOutcome (Parser.ofTokens (ofSource source).tokens).parse.1 =
            unlinedOutcome (Parser.ofTokens (ofSource other).tokens).parse.1 ∧
          ((ofSource source).errors.map ScanError.unlined =
              (ofSource other).errors.map ScanError.unlined →
            unlinedResult (parseSource source) = unlinedResult (parseSource other)) := by
  refine ⟨scan_layout source, fun other same => ⟨unlinedOutcome_of_words same, fun errors => ?_⟩⟩
  rw [unlinedResult_parseSource, unlinedResult_parseSource, errors, unlinedOutcome_of_words same]

/-- A comment with a quote in it stands between the point and the string, and in the other source a
blank stands in front of the point, which no digit follows. -/
theorem layout_never_matters_comment :
    let source := "7. //\" \n\"a\n//\""
    let other := "7 .\t\"a\n//\""
    (words source).map Token.unlined = (words other).map Token.unlined ∧
      (ofSource source).errors.map ScanError.unlined =
        (ofSource other).errors.map ScanError.unlined ∧
      unlinedResult (parseSource source) = unlinedResult (parseSource other) := by
  intro source other
  have same : (words source).map Token.unlined = (words other).map Token.unlined := by
    decide +kernel
  have errors : (ofSource source).errors.map ScanError.unlined =
      (ofSource other).errors.map ScanError.unlined := by
    decide +kernel
  exact ⟨same, errors, ((layout_never_matters source).2 other same).2 errors⟩

end Source

end Lox
