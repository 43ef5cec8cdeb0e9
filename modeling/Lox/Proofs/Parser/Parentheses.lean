import Lox.Proofs.Expr.Context
import Lox.Proofs.Parser.Source

set_option autoImplicit false

namespace Lox.Parser

open Lox.Expr (Context Surrounds)

/-- The tokens from the first end of input on, which the parser does not read. -/
def unread (tokens : List Token) : List Token :=
  tokens.dropWhile (·.type ≠ .endOfInput)

def parenthesized (before : List Token) (opening : Token) (own : List Token) (closing : Token)
    (behind : List Token) : List Token :=
  before ++ opening :: (own ++ closing :: behind)

section Tokens

variable {tokens : List Token}

theorem ne_endOfInput_of_mem_properTokens {t : Token} (member : t ∈ properTokens tokens) :
    t.type ≠ .endOfInput := by
  rw [properTokens_eq] at member
  exact (standsIn_ofTokens tokens).running t member

theorem properTokens_append_unread (tokens : List Token) :
    properTokens tokens ++ unread tokens = tokens := by
  rw [properTokens_eq]
  exact List.takeWhile_append_dropWhile

theorem takeWhile_unread (tokens : List Token) :
    (unread tokens).takeWhile (·.type ≠ .endOfInput) = [] := by
  have first := List.head?_dropWhile_not (fun t : Token => decide (t.type ≠ .endOfInput)) tokens
  rw [unread]
  cases rest : tokens.dropWhile (·.type ≠ .endOfInput) with
  | nil => rfl
  | cons t rest' =>
    rw [rest] at first
    exact List.takeWhile_cons_of_neg (Bool.eq_false_iff.mp first)

theorem properTokens_append {word : List Token} (running : ∀ t ∈ word, t.type ≠ .endOfInput)
    (tokens : List Token) : properTokens (word ++ unread tokens) = word := by
  have proper : ∀ t ∈ word, decide (t.type ≠ .endOfInput) = true :=
    fun t member => decide_eq_true (running t member)
  have pending : (ofTokens (word ++ unread tokens)).pending =
      (word ++ unread tokens).takeWhile (·.type ≠ .endOfInput) := rfl
  rw [properTokens_eq, pending, List.takeWhile_append_of_pos proper, takeWhile_unread,
    List.append_nil]

theorem properTokens_parenthesized {before own behind : List Token} {opening closing : Token}
    (whole : before ++ (own ++ behind) = properTokens tokens)
    (opens : opening.type = .leftParen) (closes : closing.type = .rightParen) :
    properTokens (parenthesized before opening own closing behind ++ unread tokens) =
      parenthesized before opening own closing behind := by
  apply properTokens_append
  intro t member
  have parts : t ∈ properTokens tokens ∨ t = opening ∨ t = closing := by
    rw [← whole]
    simp only [parenthesized, List.mem_append, List.mem_cons] at member ⊢
    grind
  rcases parts with inside | rfl | rfl
  · exact ne_endOfInput_of_mem_properTokens inside
  · simp [opens]
  · simp [closes]

theorem spells_parenthesized {word before own behind : List Token} {c : Context} {x : Expr}
    {opening closing : Token} (surrounds : Surrounds word c x before own behind)
    (opens : opening.type = .leftParen) (closes : closing.type = .rightParen) :
    (c.fill (.grouping x)).Spells (parenthesized before opening own closing behind) := by
  have spelled := surrounds.around.fill (.grouping opens surrounds.spelled closes)
  rwa [List.cons_append, List.append_assoc] at spelled

end Tokens

/-- Redundant parentheses are harmless. Take any node of any tree that the parser builds. The tokens
that are read come apart in one way into those in front of the node, those that it was built from
and those behind it. With parentheses around its tokens, the parser builds the same tree but for a
grouping around the node, and that has the same value or the same error. What is more, any two trees
that differ in nothing but groupings have the same value or the same error. -/
theorem parentheses_are_harmless :
    (∀ (tokens : List Token) (e : Expr), (ofTokens tokens).parse.1 = .ok e →
      ∀ (c : Context) (x : Expr), c.fill x = e →
        ∃ before own behind, Surrounds (properTokens tokens) c x before own behind ∧
          (∀ front middle back, Surrounds (properTokens tokens) c x front middle back →
            front = before ∧ middle = own ∧ back = behind) ∧
          before ++ (own ++ behind) ++ unread tokens = tokens ∧
          (∀ opening closing : Token, opening.type = .leftParen → closing.type = .rightParen →
            (ofTokens (parenthesized before opening own closing behind ++ unread tokens)).parse.1 =
              .ok (c.fill (.grouping x))) ∧
          (c.fill (.grouping x)).evaluate = e.evaluate) ∧
      ∀ a b : Expr, a.ungrouped = b.ungrouped → a.evaluate = b.evaluate := by
  refine ⟨?_, fun a b => Expr.evaluate_eq_of_ungrouped⟩
  rintro tokens _ read c x rfl
  rw [parse_eq_ok_iff_run, ← properTokens_eq, run_start_eq_ok_iff] at read
  obtain ⟨formed, spelled⟩ := read
  obtain ⟨before, own, behind, surrounds⟩ := spelled.exists_surrounds
  refine ⟨before, own, behind, surrounds, fun _ _ _ => surrounds.unique, ?_, ?_, ?_⟩
  · rw [surrounds.whole, properTokens_append_unread]
  · intro opening closing opens closes
    rw [parse_eq_ok_iff_run, ← properTokens_eq, run_start_eq_ok_iff,
      properTokens_parenthesized surrounds.whole opens closes]
    exact ⟨formed.fill_grouping, spells_parenthesized surrounds opens closes⟩
  · exact Expr.evaluate_eq_of_ungrouped (Expr.ungrouped_fill_grouping c x)

/-- The `1` of `-1 + 2`, where the minus sign takes the whole sum. -/
theorem parentheses_are_harmless_summand :
    let minus : Token := ⟨.minus, "-", none, 1⟩
    let one : Token := ⟨.number, "1", some (.number ⟨0x3FF0000000000000⟩), 1⟩
    let plus : Token := ⟨.plus, "+", none, 1⟩
    let two : Token := ⟨.number, "2", some (.number ⟨0x4000000000000000⟩), 1⟩
    let opening : Token := ⟨.leftParen, "(", none, 1⟩
    let closing : Token := ⟨.rightParen, ")", none, 1⟩
    let first : Expr := .literal (.number ⟨0x3FF0000000000000⟩)
    let second : Expr := .literal (.number ⟨0x4000000000000000⟩)
    let sum (x : Expr) : Expr := .unary minus (.binary x plus second)
    (ofTokens [minus, one, plus, two]).parse.1 = .ok (sum first) ∧
      (ofTokens [minus, opening, one, closing, plus, two]).parse.1 = .ok (sum (.grouping first)) ∧
      (sum (.grouping first)).evaluate = (sum first).evaluate := by
  intro minus one plus two opening closing first second sum
  let c : Context := .unary minus (.left .hole plus second)
  have read : (ofTokens [minus, one, plus, two]).parse.1 = .ok (sum first) := rfl
  obtain ⟨before, own, behind, _, unique, _, parses, value⟩ :=
    parentheses_are_harmless.1 _ _ read c first rfl
  have surrounds : Surrounds (properTokens [minus, one, plus, two]) c first
      [minus] [one] [plus, two] :=
    ⟨rfl, .unary (.left .hole (.literal ⟨rfl, rfl⟩)), .literal ⟨rfl, rfl⟩⟩
  obtain ⟨rfl, rfl, rfl⟩ := unique _ _ _ surrounds
  exact ⟨read, parses opening closing rfl rfl, value⟩

end Lox.Parser
