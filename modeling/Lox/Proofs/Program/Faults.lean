import Lox.Proofs.Expr.Machine
import Lox.Proofs.Program.Composition
import Lox.Proofs.Token.Layout
import Lox.Proofs.Token.Place

set_option autoImplicit false

namespace Lox

def RunError.lines : RunError → List Nat
  | compile diagnostics => diagnostics.map Diagnostic.line
  | runtime error => [error.line]
  | output _ => []

/-- What a diagnostic of a source is about: a scan error, or the token at which the parser of the
source finds a fault. -/
inductive Diagnostic.Concerns (source : String) : Diagnostic → Except ScanError Token → Prop
  | scanError (e : ScanError) : Concerns source e.diagnostic (.error e)
  | token {i : Nat} {t : Token} (fault : Parser.Fault)
    (offending : (Parser.ofTokens (TokenStream.ofSource source).tokens).faultIndex? = some i)
    (present : (TokenStream.ofSource source).tokens[i]? = some t) :
    Concerns source (t.diagnostic fault.message) (.ok t)

/-- What a runtime error of a tree is about: the operator at which the machine stops. -/
def RuntimeError.Concerns (e : Expr) (error : RuntimeError) (operator : Token) : Prop :=
  ∃ rest, Machine.run e.postorder [] = .error ⟨.refused operator error.fault, rest⟩ ∧
    error = ⟨error.fault, operator.lexeme, operator.line⟩

theorem RuntimeError.Concerns.line_eq {e : Expr} {error : RuntimeError} {operator : Token}
    (concerns : error.Concerns e operator) : error.line = itemLine (.ok operator) := by
  obtain ⟨rest, stops, whole⟩ := concerns
  rw [whole]
  rfl

/-- The node is read from the token, a grouping from its opening parenthesis. -/
def Node.ReadFrom (t : Token) : Node → Prop
  | literal value => t.StandsFor value
  | grouping => t.type = .leftParen
  | unary operator | binary operator => t = operator

/-- Every node of a tree is read from one of the tokens that spell the tree. -/
theorem Expr.Spells.exists_readFrom {e : Expr} {word : List Token} {node : Node}
    (spelled : e.Spells word) (member : node ∈ e.postorder) : ∃ t ∈ word, node.ReadFrom t := by
  induction spelled with
  | @literal t value stands =>
    obtain rfl := List.mem_singleton.mp member
    exact ⟨t, List.mem_singleton_self t, stands⟩
  | @grouping opening closing inner word opens spelled closes ih =>
    rcases List.mem_append.mp member with inside | last
    · obtain ⟨t, found, read⟩ := ih inside
      exact ⟨t, by simp [found], read⟩
    · obtain rfl := List.mem_singleton.mp last
      exact ⟨opening, List.mem_cons_self, opens⟩
  | @unary operator operand word spelled ih =>
    rcases List.mem_append.mp member with inside | last
    · obtain ⟨t, found, read⟩ := ih inside
      exact ⟨t, List.mem_cons_of_mem _ found, read⟩
    · obtain rfl := List.mem_singleton.mp last
      exact ⟨operator, List.mem_cons_self, rfl⟩
  | @binary operator left right first second before behind ihl ihr =>
    rcases List.mem_append.mp member with inside | last
    · rcases List.mem_append.mp inside with inLeft | inRight
      · obtain ⟨t, found, read⟩ := ihl inLeft
        exact ⟨t, List.mem_append_left _ found, read⟩
      · obtain ⟨t, found, read⟩ := ihr inRight
        exact ⟨t, List.mem_append_right _ (List.mem_cons_of_mem _ found), read⟩
    · obtain rfl := List.mem_singleton.mp last
      exact ⟨operator, by simp, rfl⟩

theorem Expr.Spells.mem_of_operator {e : Expr} {word : List Token} {node : Node} {operator : Token}
    (spelled : e.Spells word) (isOperator : node = .unary operator ∨ node = .binary operator)
    (member : node ∈ e.postorder) : operator ∈ word := by
  obtain ⟨t, found, read⟩ := spelled.exists_readFrom member
  have same : t = operator := by
    rcases isOperator with rfl | rfl
    · exact read
    · exact read
  exact same ▸ found

section Source

open TokenStream

variable {source : String} {e : Expr}

theorem mem_items_of_mem_tokens {t : Token} (member : t ∈ (ofSource source).tokens) :
    .ok t ∈ (ofSource source).items := by
  obtain ⟨item, inItems, isToken⟩ := List.mem_filterMap.mp member
  cases item with
  | ok u => exact Option.some.inj isToken ▸ inItems
  | error e => cases isToken

theorem mem_items_of_mem_errors {e : ScanError} (member : e ∈ (ofSource source).errors) :
    .error e ∈ (ofSource source).items := by
  obtain ⟨item, inItems, isError⟩ := List.mem_filterMap.mp member
  cases item with
  | ok t => cases isError
  | error f => exact Option.some.inj isError ▸ inItems

/-- The tokens of a source need no other end of input. -/
theorem completed_tokens (source : String) :
    Parser.completed (ofSource source).tokens = (ofSource source).tokens := by
  obtain ⟨whole, _⟩ := tokens_eq_words_append source
  have last : (ofSource source).tokens.getLast? = some (ending source) := by
    rw [whole, List.getLast?_concat]
  exact Parser.completed_of_ends (by rw [last]; rfl)

/-- A syntax error of a source is put at one of its tokens. -/
theorem concerns_of_parse {error : SyntaxError}
    (failed : (Parser.ofTokens (ofSource source).tokens).parse.1 = .error error) :
    error.token ∈ (ofSource source).tokens ∧
      error.diagnostic.Concerns source (.ok error.token) := by
  obtain ⟨failure, run, token⟩ := Parser.parse_eq_error failed
  obtain ⟨before, later, split, _⟩ := Parser.run_eq_error run
  obtain ⟨index, present, _⟩ := Parser.faultIndex?_ofTokens run split
  rw [completed_tokens, ← token] at present
  exact ⟨List.mem_of_getElem? present, .token error.fault index present⟩

theorem SyntaxError.line_diagnostic (error : SyntaxError) :
    error.diagnostic.line = error.token.line := rfl

theorem mem_diagnostics {diagnostics : Diagnostics}
    (failed : parseSource source = .error diagnostics) :
    ∀ d ∈ diagnostics, (∃ e ∈ (ofSource source).errors, d = e.diagnostic) ∨
      ∃ error, (Parser.ofTokens (ofSource source).tokens).parse.1 = .error error ∧
        d = error.diagnostic := by
  have scanFault : ∀ d ∈ (ofSource source).errors.map ScanError.diagnostic,
      ∃ e ∈ (ofSource source).errors, d = e.diagnostic := by
    intro d member
    obtain ⟨e, isError, rfl⟩ := List.mem_map.mp member
    exact ⟨e, isError, rfl⟩
  intro d member
  simp only [parseSource] at failed
  split at failed
  next e read =>
    split at failed
    next => cases failed
    next =>
      obtain rfl := Except.error.inj failed
      exact .inl (scanFault d member)
  next error stopped =>
    obtain rfl := Except.error.inj failed
    rcases List.mem_append.mp member with scanned | last
    · exact .inl (scanFault d scanned)
    · exact .inr ⟨error, stopped, List.mem_singleton.mp last⟩

/-- Each diagnostic of a source is about one of its items. -/
theorem exists_concerns {diagnostics : Diagnostics}
    (failed : parseSource source = .error diagnostics) :
    ∀ d ∈ diagnostics, ∃ item ∈ (ofSource source).items,
      d.Concerns source item ∧ d.line = itemLine item := by
  intro d member
  rcases mem_diagnostics failed d member with ⟨e, isError, rfl⟩ | ⟨error, stopped, rfl⟩
  · exact ⟨.error e, mem_items_of_mem_errors isError, .scanError e, rfl⟩
  · obtain ⟨isToken, concerns⟩ := concerns_of_parse stopped
    exact ⟨.ok error.token, mem_items_of_mem_tokens isToken, concerns, error.line_diagnostic⟩

theorem exists_concerns_of_evaluate {error : RuntimeError} (read : parseSource source = .ok e)
    (failed : e.evaluate = .error error) :
    ∃ operator, .ok operator ∈ (ofSource source).items ∧ error.Concerns e operator := by
  obtain ⟨tokens, consists, formed, spelled⟩ := (parseSource_eq_ok_iff source e).mp read
  obtain ⟨before, node, behind, operator, fault, split, isOperator, stops, rfl⟩ :=
    Machine.exists_stop_of_evaluate failed
  have member : node ∈ e.postorder := by
    rw [split]
    exact List.mem_append_right _ List.mem_cons_self
  have inTokens := spelled.mem_of_operator isOperator member
  refine ⟨operator, ?_, node :: behind, ?_, rfl⟩
  · rw [items_of_consistsOf consists]
    exact List.mem_map_of_mem (List.mem_append_left _ inTokens)
  · rw [split]
    exact stops behind

/-- No error of a program names a line that the program does not have. -/
theorem mem_lines_bounds {sink : Sink} {error : RunError}
    (failed : (run source sink).1 = .error error) :
    ∀ line ∈ error.lines, 1 ≤ line ∧ line ≤ 1 + lineFeeds source := by
  have bounds := itemLine_bounds source
  intro line named
  rw [run] at failed
  split at failed
  next diagnostics unread =>
    obtain rfl := Except.error.inj failed
    obtain ⟨d, member, rfl⟩ := List.mem_map.mp named
    obtain ⟨item, inItems, _, same⟩ := exists_concerns unread d member
    rw [same]
    exact bounds item inItems
  next e read =>
    rw [interpret] at failed
    split at failed
    next fault stopped =>
      obtain rfl := Except.error.inj failed
      obtain ⟨operator, inItems, concerns⟩ := exists_concerns_of_evaluate read stopped
      rw [List.mem_singleton.mp named, concerns.line_eq]
      exact bounds _ inItems
    next value valued =>
      split at failed
      next => cases failed
      next =>
        obtain rfl := Except.error.inj failed
        cases named

/-- Every line that is reported is right. An item of a source stands behind the text that is in
front of its first character, and has the line that the line feeds in there make, or those in the
whole source if it is a string that is never closed; so the lines of the items never go up again.
A diagnostic is reported on the line of the item that it is about, and a runtime error on that of
its operator. No line is reported that the source does not have. -/
theorem reported_lines (source : String) :
    (∀ (i : Nat) (item : Except ScanError Token), (ofSource source).items[i]? = some item →
        ∃ front, StandsBehind source i front item ∧ front ++ beginning item <+: source.toList ∧
          itemLine item = 1 + (counted source front item).count '\n') ∧
      ((ofSource source).items.map itemLine).Pairwise (· ≤ ·) ∧
      (∀ diagnostics, parseSource source = .error diagnostics →
        ∀ d ∈ diagnostics, ∃ item ∈ (ofSource source).items,
          d.Concerns source item ∧ d.line = itemLine item) ∧
      (∀ e error, parseSource source = .ok e → e.evaluate = .error error →
        ∃ operator, .ok operator ∈ (ofSource source).items ∧ error.Concerns e operator ∧
          error.line = itemLine (.ok operator)) ∧
      (∀ item ∈ (ofSource source).items,
        1 ≤ itemLine item ∧ itemLine item ≤ 1 + lineFeeds source) ∧
      ∀ sink error, (run source sink).1 = .error error →
        ∀ line ∈ error.lines, 1 ≤ line ∧ line ≤ 1 + lineFeeds source := by
  refine ⟨?_, pairwise_itemLine source, fun _ => exists_concerns, ?_, itemLine_bounds source,
    fun _ _ => mem_lines_bounds⟩
  · intro i item present
    obtain ⟨front, stands⟩ := exists_standsBehind present
    exact ⟨front, stands, stands.prefix_toList, stands.itemLine_eq⟩
  · intro e error read failed
    obtain ⟨operator, inItems, concerns⟩ := exists_concerns_of_evaluate read failed
    exact ⟨operator, inItems, concerns, concerns.line_eq⟩

end Source

end Lox
