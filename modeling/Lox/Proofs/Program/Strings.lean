import Lox.Proofs.Expr.Congruence
import Lox.Proofs.Program.Readback
import Lox.Proofs.Token.Literal

set_option autoImplicit false

namespace Lox

def quoted (s : String) : String :=
  "\"" ++ s ++ "\""

/-- How a value is written in a program as one token. -/
inductive Value.WrittenAs : Value → String → Prop
  | number {numeral : String} (isNumeral : IsNumeral numeral.toList) :
    WrittenAs (.number (.ofDecimal (Decimal.ofText numeral.toList))) numeral
  | string {s : String} (inside : '"' ∉ s.toList) : WrittenAs (.string s) (quoted s)
  | boolean (b : Bool) : WrittenAs (.boolean b) (if b then "true" else "false")
  | nil : WrittenAs .nil "nil"

/-- A plus sign between spaces and a quoted text, for each of the texts. -/
def addends : List String → List Char
  | [] => []
  | s :: texts => ' ' :: '+' :: ' ' :: '"' :: (s.toList ++ '"' :: addends texts)

/-- Strings added to an expression one after the other. A plus sign stands on the line on which the
operand in front of it ends. -/
def Expr.plusStrings : Nat → Expr → List String → Expr
  | _, e, [] => e
  | line, e, s :: texts =>
    plusStrings (lineAfter line s.toList)
      (.binary e ⟨.plus, "+", none, line⟩ (.literal (.string s))) texts

section Source

variable {v : Value} {word : String} {texts : List String}

theorem toList_quoted (s : String) : (quoted s).toList = '"' :: (s.toList ++ ['"']) := by
  simp [quoted]

theorem toList_intercalate_quoted (word : String) (texts : List String) :
    (" + ".intercalate (word :: texts.map quoted)).toList = word.toList ++ addends texts := by
  induction texts generalizing word with
  | nil => simp [addends]
  | cons s texts ih =>
    rw [List.map_cons, String.intercalate_cons_cons, String.toList_append, ih, toList_quoted,
      addends]
    simp

theorem blankNext_addends (texts : List String) : BlankNext (addends texts) := by
  intro c head
  cases texts with
  | nil => cases head
  | cons s texts =>
    obtain rfl := Option.some.inj head
    decide

theorem IsNumeral.matches {text : List Char} (isNumeral : IsNumeral text) :
    Matches text .number := by
  cases isNumeral with
  | whole isWhole => exact .whole isWhole
  | fraction isWhole isFraction => exact .fraction isWhole isFraction

theorem Value.WrittenAs.exists_matches (written : v.WrittenAs word) :
    ∃ type, Matches word.toList type ∧
      ∀ lexeme line, Token.StandsFor ⟨type, lexeme, literalOf type word.toList, line⟩ v := by
  cases written with
  | number isNumeral => exact ⟨.number, isNumeral.matches, fun _ _ => ⟨rfl, rfl⟩⟩
  | @string s inside =>
    rw [toList_quoted]
    refine ⟨.string, .string inside, fun _ _ => ⟨rfl, ?_⟩⟩
    simp [literalOf]
  | boolean b =>
    cases b with
    | true => exact ⟨.kwTrue, matches_keyword (by decide), fun _ _ => rfl⟩
    | false => exact ⟨.kwFalse, matches_keyword (by decide), fun _ _ => rfl⟩
  | nil => exact ⟨.kwNil, matches_keyword (by decide), fun _ _ => rfl⟩

theorem ConsistsOf.quoted_append {line : Nat} {s : String} {behind : List Char}
    {tokens : List Token} (inside : '"' ∉ s.toList)
    (more : ConsistsOf (lineAfter line s.toList) behind tokens) :
    ConsistsOf line ('"' :: (s.toList ++ '"' :: behind))
      (⟨.string, quoted s, some (.string s), line⟩ :: tokens) := by
  have string := string_append inside more
  rwa [← toList_quoted, String.ofList_toList, String.ofList_toList] at string

/-- The tokens of the addends, put behind those of an expression, spell the sum. -/
theorem exists_consistsOf_addends (noQuote : ∀ s ∈ texts, '"' ∉ s.toList) (line : Nat) :
    ∃ tokens, ConsistsOf line (addends texts) tokens ∧
      ∀ (e : Expr) (front : List Token), e.Spells front →
        (e.plusStrings line texts).Spells (front ++ tokens) := by
  induction texts generalizing line with
  | nil =>
    refine ⟨[], .nil line, fun e front spelled => ?_⟩
    rwa [List.append_nil]
  | cons s texts ih =>
    obtain ⟨tokens, consists, spells⟩ :=
      ih (fun t member => noQuote t (.tail s member)) (lineAfter line s.toList)
    have listed : (TokenType.plus, "+") ∈ binaryOperators := by decide
    have string := ConsistsOf.quoted_append (noQuote s List.mem_cons_self) consists
    let sign : Token := ⟨.plus, "+", none, line⟩
    let operand : Token := ⟨.string, quoted s, some (.string s), line⟩
    refine ⟨sign :: operand :: tokens, string.operator_append listed, fun e front spelled => ?_⟩
    have stands : (Expr.literal (.string s)).Spells [operand] := .literal ⟨rfl, rfl⟩
    have sum : (Expr.binary e sign (.literal (.string s))).Spells (front ++ sign :: [operand]) :=
      .binary spelled stands
    have whole := spells _ _ sum
    rwa [List.append_assoc] at whole

/-- A sum of strings can follow every operand that nothing behind it can break up. -/
theorem wellFormed_plusStrings {e : Expr} (formed : e.WellFormed)
    (level : TokenType.plus.level ≤ e.level) (closed : e.endsOpen = false) (line : Nat) :
    (e.plusStrings line texts).WellFormed := by
  induction texts generalizing e line with
  | nil => exact formed
  | cons s texts ih =>
    apply ih
    · have lowest : 1 ≤ TokenType.plus.level := by decide
      have operand : TokenType.plus.level + 1 ≤ TokenType.operandLevel := by decide
      exact ⟨lowest, level, operand, fun _ => closed, formed, trivial⟩
    · exact Nat.le_refl _
    · rfl

theorem parseSource_plusStrings (written : v.WrittenAs word)
    (noQuote : ∀ s ∈ texts, '"' ∉ s.toList) :
    parseSource (" + ".intercalate (word :: texts.map quoted)) =
      .ok ((Expr.literal v).plusStrings (lineAfter firstLine word.toList) texts) := by
  obtain ⟨type, matched, stands⟩ := written.exists_matches
  obtain ⟨tokens, consists, spells⟩ :=
    exists_consistsOf_addends noQuote (lineAfter firstLine word.toList)
  have whole := ConsistsOf.matched_append matched (blankNext_addends texts) consists
  rw [← toList_intercalate_quoted] at whole
  apply (parseSource_eq_ok_iff_of_consistsOf whole _).mpr
  constructor
  · have literal : (Expr.literal v).WellFormed := trivial
    exact wellFormed_plusStrings literal (by decide : TokenType.plus.level ≤ TokenType.operandLevel)
      rfl _
  · exact spells _ _ (.literal (stands _ _))

end Source

section Runs

variable {v : Value} {word : String} {texts : List String} {e : Expr}

/-- Each string is put behind the text of the sum so far, also if that is no string yet. -/
theorem exists_evaluate_plusStrings (texts : List String) (value : e.evaluate = .ok v)
    (line : Nat) :
    ∃ w, (e.plusStrings line texts).evaluate = .ok w ∧ w.text = v.text ++ String.join texts := by
  induction texts generalizing e v line with
  | nil => exact ⟨v, value, by rw [String.join_nil, String.append_empty]⟩
  | cons s texts ih =>
    have sum : (Expr.binary e ⟨.plus, "+", none, line⟩ (.literal (.string s))).evaluate =
        .ok (.string (v.text ++ s)) := by
      rw [Expr.evaluate_binary, value]
      show Token.applied _ (v.plus (.string s)) = _
      rw [Value.plus_string]
      rfl
    obtain ⟨w, evaluated, text⟩ := ih sum (lineAfter line s.toList)
    refine ⟨w, evaluated, ?_⟩
    rw [text, String.join_cons, ← String.append_assoc]
    rfl

theorem run_plusStrings (written : v.WrittenAs word) (noQuote : ∀ s ∈ texts, '"' ∉ s.toList)
    {sink : Sink} (room : sink.HasRoom (Bytes.ofText (v.text ++ String.join texts ++ "\n"))) :
    run (" + ".intercalate (word :: texts.map quoted)) sink =
      (.ok (), { sink with
        written := sink.written ++ Bytes.ofText (v.text ++ String.join texts ++ "\n") }) := by
  have value : (Expr.literal v).evaluate = .ok v := rfl
  obtain ⟨w, evaluated, text⟩ :=
    exists_evaluate_plusStrings texts value (lineAfter firstLine word.toList)
  rw [run_eq_written (parseSource_plusStrings written noQuote) evaluated, Value.written,
    Value.output, text, Sink.write_of_hasRoom room]

/-- Text passes through unaltered. Quoted texts joined by plus signs are a program that prints the
texts one behind the other, whatever they hold apart from a quote; with a literal in front of them
it prints the text of that first. -/
theorem quoted_texts_pass_unaltered (nonempty : texts ≠ [])
    (noQuote : ∀ s ∈ texts, '"' ∉ s.toList) :
    (∀ sink : Sink, sink.HasRoom (Bytes.ofText (String.join texts ++ "\n")) →
        run (" + ".intercalate (texts.map quoted)) sink =
          (.ok (), { sink with
            written := sink.written ++ Bytes.ofText (String.join texts ++ "\n") })) ∧
      ∀ (v : Value) (word : String), v.WrittenAs word →
        ∀ sink : Sink, sink.HasRoom (Bytes.ofText (v.text ++ String.join texts ++ "\n")) →
          run (" + ".intercalate (word :: texts.map quoted)) sink =
            (.ok (), { sink with
              written := sink.written ++ Bytes.ofText (v.text ++ String.join texts ++ "\n") }) := by
  refine ⟨fun sink room => ?_, fun v word written sink room => run_plusStrings written noQuote room⟩
  obtain ⟨s, later, rfl⟩ := List.exists_cons_of_ne_nil nonempty
  have written : (Value.string s).WrittenAs (quoted s) := .string (noQuote s List.mem_cons_self)
  rw [String.join_cons] at room ⊢
  exact run_plusStrings written (fun t member => noQuote t (.tail s member)) room

/-- Line feeds, comment marks and operators between quotes are text, and the zeros around a numeral
are not printed. -/
theorem quoted_texts_pass_unaltered_marks :
    let texts := ["// (\n", "", " + 1"]
    (∀ s ∈ texts, '"' ∉ s.toList) ∧
      run "\"// (\n\" + \"\" + \" + 1\"" .unlimited =
        (.ok (), ⟨Bytes.ofText "// (\n + 1\n", none, .sinkFull⟩) ∧
      run "007.50 + \"// (\n\" + \"\" + \" + 1\"" .unlimited =
        (.ok (), ⟨Bytes.ofText "7.5// (\n + 1\n", none, .sinkFull⟩) := by
  intro texts
  have noQuote : ∀ s ∈ texts, '"' ∉ s.toList := by decide
  obtain ⟨alone, behind⟩ := quoted_texts_pass_unaltered (List.cons_ne_nil _ _) noQuote
  have whole : Digits "007".toList := .of_all (by decide) (by decide)
  have fraction : Digits "50".toList := .of_all (by decide) (by decide)
  have isNumeral : IsNumeral "007.50".toList := .fraction whole fraction
  have text : (Value.number (.ofDecimal (Decimal.ofText "007.50".toList))).text = "7.5" := by
    decide +kernel
  have prints := behind _ _ (.number isNumeral) .unlimited Nat.le.refl
  rw [text] at prints
  have source : " + ".intercalate (texts.map quoted) = "\"// (\n\" + \"\" + \" + 1\"" := by decide
  have source' : " + ".intercalate ("007.50" :: texts.map quoted) =
      "007.50 + \"// (\n\" + \"\" + \" + 1\"" := by decide
  rw [source'] at prints
  rw [source] at alone
  exact ⟨noQuote, alone .unlimited Nat.le.refl, prints⟩

end Runs

end Lox
