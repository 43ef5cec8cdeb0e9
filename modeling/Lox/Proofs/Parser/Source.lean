import Lox.Parser.Source
import Lox.Proofs.Parser.Tree
import Lox.Proofs.Token.Repair

set_option autoImplicit false

namespace Lox

/-- What comes of the tokens of a source that has no scan errors: an expression or the one syntax
error. -/
def outcomeOfTokens (tokens : List Token) : Except Diagnostics Expr :=
  (Parser.ofTokens tokens).parse.1.mapError fun e => [e.diagnostic]

section Source

variable {source : String}

theorem scan_of_no_errors (noErrors : (TokenStream.ofSource source).errors = []) :
    scan source = .ok (TokenStream.ofSource source).tokens := by
  simp only [scan, noErrors, List.isEmpty_nil, ↓reduceIte]

theorem scan_of_errors (hasErrors : (TokenStream.ofSource source).errors ≠ []) :
    scan source = .error ((TokenStream.ofSource source).errors.map ScanError.diagnostic) := by
  simp only [scan, List.isEmpty_iff, hasErrors, ↓reduceIte]

theorem parseSource_of_no_errors (noErrors : (TokenStream.ofSource source).errors = []) :
    parseSource source = outcomeOfTokens (TokenStream.ofSource source).tokens := by
  rw [parseSource, outcomeOfTokens, noErrors]
  cases (Parser.ofTokens (TokenStream.ofSource source).tokens).parse.1 <;> rfl

/-- Scan errors come first, and no tree makes up for them. -/
theorem parseSource_of_errors (hasErrors : (TokenStream.ofSource source).errors ≠ []) :
    parseSource source =
      .error ((TokenStream.ofSource source).errors.map ScanError.diagnostic ++
        match (Parser.ofTokens (TokenStream.ofSource source).tokens).parse.1 with
        | .ok _ => []
        | .error e => [e.diagnostic]) := by
  rw [parseSource]
  cases (Parser.ofTokens (TokenStream.ofSource source).tokens).parse.1 with
  | ok e =>
    simp only [List.isEmpty_iff, List.map_eq_nil_iff, hasErrors, ↓reduceIte, List.append_nil]
  | error e => rfl

/-- To go on behind scan errors is to read the source with blanks in their place. The repaired
source scans to the tokens that were found between the errors. A source without scan errors is read
as its tokens are; any other fails with all its scan errors in their order, and behind them with the
syntax error of the repaired source, if that has one. -/
theorem parseSource_recovers (source : String) :
    scan (repaired source) = .ok (TokenStream.ofSource source).tokens ∧
      match scan source with
      | .ok tokens => parseSource source = outcomeOfTokens tokens
      | .error faults =>
        faults = (TokenStream.ofSource source).errors.map ScanError.diagnostic ∧
          ((∃ e, parseSource (repaired source) = .ok e ∧ parseSource source = .error faults) ∨
            ∃ fault, parseSource (repaired source) = .error [fault] ∧
              parseSource source = .error (faults ++ [fault])) := by
  obtain ⟨sameTokens, noErrors⟩ := TokenStream.tokens_of_items (TokenStream.items_repaired source)
  have repairedOutcome := parseSource_of_no_errors noErrors
  rw [sameTokens] at repairedOutcome
  refine ⟨by rw [scan_of_no_errors noErrors, sameTokens], ?_⟩
  by_cases clean : (TokenStream.ofSource source).errors = []
  · rw [scan_of_no_errors clean]
    exact parseSource_of_no_errors clean
  · rw [scan_of_errors clean]
    refine ⟨rfl, ?_⟩
    rw [parseSource_of_errors clean, repairedOutcome, outcomeOfTokens]
    cases (Parser.ofTokens (TokenStream.ofSource source).tokens).parse.1 with
    | ok e => exact .inl ⟨e, rfl, by rw [List.append_nil]⟩
    | error e => exact .inr ⟨e.diagnostic, rfl, rfl⟩

theorem errors_eq_nil_of_parseSource {e : Expr} (read : parseSource source = .ok e) :
    (TokenStream.ofSource source).errors = [] := by
  apply Decidable.byContradiction
  intro hasErrors
  rw [parseSource_of_errors hasErrors] at read
  cases read

theorem parseSource_eq_ok_iff_of_consistsOf {tokens : List Token}
    (consists : ConsistsOf firstLine source.toList tokens) (e : Expr) :
    parseSource source = .ok e ↔ e.WellFormed ∧ e.Spells tokens := by
  obtain ⟨sameTokens, noErrors⟩ :=
    TokenStream.tokens_of_items (TokenStream.items_of_consistsOf consists)
  let parser := Parser.ofTokens (tokens ++ [TokenStream.ending source])
  have pending : parser.pending = tokens :=
    congrArg Parser.pending (Parser.ofTokens_append consists.running rfl [])
  have read := parser.parse_eq_ok_iff_run e
  rw [pending] at read
  rw [parseSource_of_no_errors noErrors, sameTokens, outcomeOfTokens, ← Parser.run_start_eq_ok_iff,
    ← read]
  cases parser.parse.1 with
  | ok tree => exact ⟨fun same => congrArg _ (Except.ok.inj same), congrArg (Except.mapError _)⟩
  | error error => exact ⟨nofun, nofun⟩

/-- A source is read as a tree when it consists of tokens that spell the tree. -/
theorem parseSource_eq_ok_iff (source : String) (e : Expr) :
    parseSource source = .ok e ↔
      ∃ tokens, ConsistsOf firstLine source.toList tokens ∧ e.WellFormed ∧ e.Spells tokens := by
  constructor
  · intro read
    obtain ⟨tokens, consists⟩ :=
      TokenStream.exists_consistsOf (errors_eq_nil_of_parseSource read)
    exact ⟨tokens, consists, (parseSource_eq_ok_iff_of_consistsOf consists e).mp read⟩
  · rintro ⟨tokens, consists, spelled⟩
    exact (parseSource_eq_ok_iff_of_consistsOf consists e).mpr spelled

end Source

end Lox
