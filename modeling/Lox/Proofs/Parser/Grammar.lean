import Lox.Proofs.Parser.Sweep
import Lox.Proofs.Parser.Tree

/- The grammar of expressions, from the rule that binds least to the rule that binds most:

    expression := equality
    equality   := comparison (("==" | "!=") comparison)*
    comparison := term ((">" | ">=" | "<" | "<=") term)*
    term       := factor (("+" | "-") factor)*
    factor     := unary (("*" | "/") unary)*
    unary      := ("!" | "-") term | primary
    primary    := NUMBER | STRING | "true" | "false" | "nil" | "(" expression ")"

It is ambiguous, since the operand of a unary operator can end before any `+`, `-`, `*` or `/`.
Reading never goes back, and still reads every sentence and stops at the first token that no
sentence goes on with. -/

set_option autoImplicit false

namespace Lox

/-- The rules whose operands are joined by operators. -/
inductive Chain where
  | equality | comparison | term | factor
deriving DecidableEq

inductive Category where
  | expression
  | chain (rule : Chain)
  | unary
  | primary
deriving DecidableEq

namespace Chain

def operators : Chain → List TokenType
  | equality => [.equalEqual, .bangEqual]
  | comparison => [.greater, .greaterEqual, .less, .lessEqual]
  | term => [.plus, .minus]
  | factor => [.star, .slash]

def operand : Chain → Category
  | equality => .chain .comparison
  | comparison => .chain .term
  | term => .chain .factor
  | factor => .unary

def level : Chain → Nat
  | equality => 1
  | comparison => 2
  | term => 3
  | factor => 4

end Chain

inductive Derives : Category → List Token → Prop
  | expression {word : List Token} (derived : Derives (.chain .equality) word) :
    Derives .expression word
  | chain {rule : Chain} {first : List Token} {more : List (Token × List Token)}
    (derived : Derives rule.operand first)
    (joined : ∀ next ∈ more, next.1.type ∈ rule.operators)
    (others : ∀ next ∈ more, Derives rule.operand next.2) :
    Derives (.chain rule) (first ++ more.flatMap fun next => next.1 :: next.2)
  | unary {operator : Token} {word : List Token} (isUnary : operator.type ∈ [.bang, .minus])
    (derived : Derives (.chain .term) word) : Derives .unary (operator :: word)
  | primary {word : List Token} (derived : Derives .primary word) : Derives .unary word
  | number {t : Token} {n : Number} (type : t.type = .number)
    (literal : t.literal = some (.number n)) : Derives .primary [t]
  | string {t : Token} {s : String} (type : t.type = .string)
    (literal : t.literal = some (.string s)) : Derives .primary [t]
  | keyword {t : Token} (type : t.type ∈ [.kwTrue, .kwFalse, .kwNil]) : Derives .primary [t]
  | parentheses {opening closing : Token} {word : List Token} (opens : opening.type = .leftParen)
    (derived : Derives .expression word) (closes : closing.type = .rightParen) :
    Derives .primary (opening :: (word ++ [closing]))

/-- A sentence of the language. -/
def Sentence (word : List Token) : Prop :=
  Derives .expression word

theorem Chain.level_of_mem_operators {rule : Chain} {type : TokenType}
    (member : type ∈ rule.operators) : type.level = rule.level := by
  cases rule <;> simp only [operators, List.mem_cons, List.not_mem_nil, or_false] at member <;>
    rcases member with rfl | rfl | rfl | rfl <;> rfl

theorem Chain.exists_of_level {type : TokenType} (isBinary : 1 ≤ type.level) :
    ∃ rule : Chain, type ∈ rule.operators := by
  have found : type ∈ equality.operators ∨ type ∈ comparison.operators ∨
      type ∈ term.operators ∨ type ∈ factor.operators := by
    revert isBinary
    cases type <;> decide
  rcases found with found | found | found | found
  · exact ⟨_, found⟩
  · exact ⟨_, found⟩
  · exact ⟨_, found⟩
  · exact ⟨_, found⟩

theorem Chain.eq_of_level_eq {rule other : Chain} (same : rule.level = other.level) :
    rule = other := by
  cases rule <;> cases other <;> simp_all [level]

theorem Chain.level_lt_operandLevel (rule : Chain) : rule.level < TokenType.operandLevel := by
  cases rule <;> decide

theorem Chain.operand_eq_chain {lower rule : Chain} (lt : lower.level < rule.level) :
    ∃ upper : Chain, lower.operand = .chain upper ∧ upper.level = lower.level + 1 := by
  cases lower with
  | equality => exact ⟨.comparison, rfl, rfl⟩
  | comparison => exact ⟨.term, rfl, rfl⟩
  | term => exact ⟨.factor, rfl, rfl⟩
  | factor => cases rule <;> simp [level] at lt

namespace Derives

variable {word second : List Token}

theorem of_operand {rule : Chain} (derived : Derives rule.operand word) :
    Derives (.chain rule) word := by
  have single : Derives (.chain rule)
      (word ++ ([] : List (Token × List Token)).flatMap fun next => next.1 :: next.2) :=
    chain derived (by simp) (by simp)
  rwa [List.flatMap_nil, List.append_nil] at single

theorem snoc {rule : Chain} {operator : Token} (derived : Derives (.chain rule) word)
    (joined : operator.type ∈ rule.operators) (last : Derives rule.operand second) :
    Derives (.chain rule) (word ++ operator :: second) := by
  cases derived with
  | @chain _ first more derived allJoined others =>
    have longer : Derives (.chain rule)
        (first ++ (more ++ [(operator, second)]).flatMap fun next => next.1 :: next.2) := by
      apply chain derived
      · intro next member
        rcases List.mem_append.mp member with old | new
        · exact allJoined next old
        · rw [List.mem_singleton.mp new]
          exact joined
      · intro next member
        rcases List.mem_append.mp member with old | new
        · exact others next old
        · rw [List.mem_singleton.mp new]
          exact last
    simpa only [List.flatMap_append, List.flatMap_singleton, List.append_assoc] using longer

/-- Whatever a rule derives, the rules that bind less derive as well. -/
theorem of_level_le {rule lower : Chain} (derived : Derives (.chain rule) word)
    (le : lower.level ≤ rule.level) : Derives (.chain lower) word := by
  induction distance : rule.level - lower.level generalizing lower with
  | zero =>
    have same : rule = lower := Chain.eq_of_level_eq (by omega)
    exact same ▸ derived
  | succ distance ih =>
    have below : lower.level < rule.level := by omega
    obtain ⟨upper, operand, level⟩ := Chain.operand_eq_chain below
    apply of_operand
    rw [operand]
    exact ih (by omega) (by omega)

theorem of_unary {rule : Chain} (derived : Derives .unary word) : Derives (.chain rule) word := by
  have last : Derives (.chain .factor) word := of_operand derived
  apply last.of_level_le
  have := rule.level_lt_operandLevel
  change rule.level ≤ 4
  change rule.level < 5 at this
  omega

end Derives

/-- The tokens can be derived from every rule whose level the tree reaches. -/
structure DerivesUpTo (level : Nat) (word : List Token) : Prop where
  chain : ∀ rule : Chain, rule.level ≤ level → Derives (.chain rule) word
  unary : TokenType.operandLevel ≤ level → Derives .unary word

namespace DerivesUpTo

variable {level : Nat} {word : List Token}

theorem of_unary (derived : Derives .unary word) : DerivesUpTo level word :=
  ⟨fun _ _ => derived.of_unary, fun _ => derived⟩

theorem operand (derived : DerivesUpTo level word) {rule : Chain}
    (above : rule.level + 1 ≤ level) : Derives rule.operand word := by
  cases rule with
  | equality => exact derived.chain .comparison above
  | comparison => exact derived.chain .term above
  | term => exact derived.chain .factor above
  | factor => exact derived.unary above

end DerivesUpTo

/-- What spells a well-formed tree can be derived. -/
theorem Expr.Spells.derives {e : Expr} {word : List Token} (spelled : e.Spells word)
    (formed : e.WellFormed) : DerivesUpTo e.level word := by
  induction spelled with
  | @literal t value stands =>
    apply DerivesUpTo.of_unary
    apply Derives.primary
    cases value with
    | number n => exact .number stands.1 stands.2
    | string s => exact .string stands.1 stands.2
    | boolean b => cases b <;> exact .keyword (by simp_all [Token.StandsFor])
    | nil => exact .keyword (by simp_all [Token.StandsFor])
  | grouping opens spelled closes ih =>
    have inner := ih formed
    have whole := inner.chain .equality (Expr.WellFormed.one_le_level formed)
    exact .of_unary (.primary (.parentheses opens (.expression whole) closes))
  | @unary operator operand word spelled ih =>
    obtain ⟨listed, reaches, formed⟩ := formed
    exact .of_unary (.unary listed ((ih formed).chain .term reaches))
  | @binary operator left right first second before behind ihl ihr =>
    obtain ⟨isBinary, leftReaches, rightReaches, _, leftFormed, rightFormed⟩ := formed
    obtain ⟨rule, member⟩ := Chain.exists_of_level isBinary
    have level := Chain.level_of_mem_operators member
    have derived := (ihl leftFormed).chain rule (by omega)
    have last := (ihr rightFormed).operand (show rule.level + 1 ≤ right.level by omega)
    have whole := derived.snoc member last
    refine ⟨fun lower le => whole.of_level_le ?_, fun high => ?_⟩
    · exact Nat.le_trans le (Nat.le_of_eq level)
    · exact absurd (operator.type.level_lt_operandLevel) (Nat.not_lt.mpr high)

/-- A sweep gets through whatever can be derived, and then has a complete operand and as many open
parentheses as before. -/
theorem Derives.pass {category : Category} {word : List Token} (derived : Derives category word)
    (depth : Nat) : (Sweep.expecting depth).pass word = some (.complete depth) := by
  induction derived generalizing depth with
  | expression derived ih => exact ih depth
  | @chain rule first more derived joined others ihFirst ihMore =>
    have rest : (Sweep.complete depth).pass (more.flatMap fun next => next.1 :: next.2) =
        some (.complete depth) := by
      clear ihFirst derived first
      induction more with
      | nil => rfl
      | cons next more ih =>
        have isBinary : 1 ≤ next.1.type.level := by
          rw [Chain.level_of_mem_operators (joined next (List.mem_cons_self ..))]
          cases rule <;> decide
        have later := ih (fun next member => joined next (List.mem_cons_of_mem _ member))
          (fun next member => others next (List.mem_cons_of_mem _ member))
          (fun next member => ihMore next (List.mem_cons_of_mem _ member))
        rw [List.flatMap_cons, List.cons_append, Sweep.pass, Sweep.move_binary isBinary]
        simp only [Sweep.pass_append, ihMore next (List.mem_cons_self ..) depth, Option.bind_some,
          later]
    rw [Sweep.pass_append, ihFirst depth, Option.bind_some, rest]
  | @unary operator word isUnary derived ih =>
    have moved : (Sweep.expecting depth).move operator = .on (.expecting depth) := by
      simp only [List.mem_cons, List.not_mem_nil, or_false] at isUnary
      rcases isUnary with bang | minus
      · simp only [Sweep.move, bang]
      · simp only [Sweep.move, minus]
    rw [Sweep.pass, moved]
    exact ih depth
  | primary derived ih => exact ih depth
  | number type literal => simp only [Sweep.pass, Sweep.move, type, literal]
  | string type literal => simp only [Sweep.pass, Sweep.move, type, literal]
  | @keyword t type =>
    simp only [List.mem_cons, List.not_mem_nil, or_false] at type
    rcases type with type | type | type
    · simp only [Sweep.pass, Sweep.move, type]
    · simp only [Sweep.pass, Sweep.move, type]
    · simp only [Sweep.pass, Sweep.move, type]
  | @parentheses opening closing word opens derived closes ih =>
    have opened : (Sweep.expecting depth).move opening = .on (.expecting (depth + 1)) := by
      simp only [Sweep.move, opens]
    have closed : (Sweep.complete (depth + 1)).move closing = .on (.complete depth) := by
      simp only [Sweep.move, closes]
    rw [Sweep.pass, opened]
    simp only [Sweep.pass_append, ih (depth + 1), Option.bind_some, Sweep.pass, closed]

namespace Parser

/-- The sentences are what is read as an expression. -/
theorem exists_run_eq_ok_iff_sentence (word : List Token) :
    (∃ e, State.start.run word = .ok e) ↔ Sentence word := by
  constructor
  · rintro ⟨e, read⟩
    have start : State.start.Holds [] := .nil
    obtain ⟨formed, spelled⟩ := start.run read
    exact .expression ((spelled.derives formed).chain .equality formed.one_le_level)
  · intro derived
    have passed : State.start.sweep.pass word = some (.complete 0) := derived.pass 0
    obtain ⟨later, closed, run⟩ := run_of_pass passed
    rw [← List.append_nil word, run]
    exact run_nil_of_sweep closed

/-- As many closing parentheses as are open. -/
def closing (depth : Nat) : List Token :=
  List.replicate depth ⟨.rightParen, ")", none, firstLine⟩

/-- The tokens that complete an expression: an operand, if one is missing, and the closing
parentheses. -/
def completion : Sweep → List Token
  | .expecting depth => ⟨.kwNil, "nil", none, firstLine⟩ :: closing depth
  | .complete depth => closing depth

theorem pass_closing (depth : Nat) :
    (Sweep.complete depth).pass (closing depth) = some (.complete 0) := by
  induction depth with
  | zero => rfl
  | succ depth ih => exact ih

theorem pass_completion (s : Sweep) : s.pass (completion s) = some (.complete 0) := by
  cases s with
  | expecting depth => exact pass_closing depth
  | complete depth => exact pass_closing depth

/-- From every state an expression can be completed. -/
theorem exists_run_eq_ok (s : State) : ∃ more e, s.run more = .ok e := by
  obtain ⟨later, closed, run⟩ := run_of_pass (pass_completion s.sweep)
  refine ⟨completion s.sweep, ?_⟩
  rw [← List.append_nil (completion s.sweep), run]
  exact run_nil_of_sweep closed

/-- What is read before a fault is the beginning of a sentence, and with the offending token it is
not. -/
theorem viable_of_run_eq_error {word : List Token} {failure : Failure}
    (failed : State.start.run word = .error failure) :
    ∃ before, word = before ++ failure.rest ∧ (∃ more, Sentence (before ++ more)) ∧
      ∀ t behind, failure.rest = t :: behind → ∀ more, ¬ Sentence (before ++ t :: more) := by
  obtain ⟨before, later, split, run, stuck⟩ := run_eq_error failed
  refine ⟨before, split, ?_, ?_⟩
  · obtain ⟨more, e, completed⟩ := exists_run_eq_ok later
    exact ⟨more, (exists_run_eq_ok_iff_sentence _).mp ⟨e, by rw [run, completed]⟩⟩
  · intro t behind first more derived
    obtain ⟨e, read⟩ := (exists_run_eq_ok_iff_sentence _).mpr derived
    rw [run, stuck t behind first more] at read
    cases read

/-- A fresh parser accepts the sentences of the grammar and no other tokens. If it fails, the tokens
before the offending one are the beginning of a sentence, and no sentence goes on with that one, or
ends there if that is the end of input. -/
theorem parse_decides_sentence (tokens : List Token) :
    ((∃ e, (ofTokens tokens).parse.1 = .ok e) ↔ Sentence (properTokens tokens)) ∧
      ∀ e, (ofTokens tokens).parse.1 = .error e →
        ∃ i, (ofTokens tokens).faultIndex? = some i ∧ (completed tokens)[i]? = some e.token ∧
          (∃ more, Sentence ((completed tokens).take i ++ more)) ∧
          ((e.token.type ≠ .endOfInput ∧
              ∀ more, ¬ Sentence ((completed tokens).take (i + 1) ++ more)) ∨
            (e.token.type = .endOfInput ∧ ¬ Sentence ((completed tokens).take i))) := by
  have accepts : (∃ e, (ofTokens tokens).parse.1 = .ok e) ↔ Sentence (properTokens tokens) := by
    simp only [parse_eq_ok_iff_run, properTokens_eq, exists_run_eq_ok_iff_sentence]
  refine ⟨accepts, fun e failed => ?_⟩
  obtain ⟨failure, run, token⟩ := parse_eq_error failed
  obtain ⟨before, split, viable, stuck⟩ := viable_of_run_eq_error run
  have ⟨index, present, front⟩ := faultIndex?_ofTokens run split
  refine ⟨before.length, index, by rw [present, token], by rwa [front], ?_⟩
  have stands := standsIn_ofTokens tokens
  cases rest : failure.rest with
  | nil =>
    refine Or.inr ⟨?_, ?_⟩
    · rw [token, rest]
      exact stands.ends
    · rw [front, ← List.append_nil before, ← rest, ← split, ← exists_run_eq_ok_iff_sentence, run]
      rintro ⟨e, read⟩
      cases read
  | cons t behind =>
    have offending : e.token = t := by
      rw [token, rest]
      rfl
    refine Or.inl ⟨?_, fun more => ?_⟩
    · rw [offending]
      apply stands.running
      rw [split, rest]
      exact List.mem_append_right _ List.mem_cons_self
    · have longer : (completed tokens).take (before.length + 1) = before ++ [t] := by
        rw [List.take_add_one, front, present, ← token, offending, Option.toList_some]
      rw [longer, List.append_assoc, List.singleton_append]
      exact stuck t behind rest more

end Parser

end Lox
