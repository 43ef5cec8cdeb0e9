import Lox.Proofs.Expr.Text
import Lox.Proofs.Program.Literals

set_option autoImplicit false

namespace Lox

open TokenStream

variable {source : String} {e : Expr}

theorem Token.StandsFor.isPlain {t : Token} {value : Value} (stands : t.StandsFor value)
    (scanned : t.IsScanned) (noString : t.type ≠ .string) : value.IsPlain := by
  cases value with
  | number n => exact (scanned.isUnsigned stands).notNaN
  | string s => exact absurd stands.1 noString
  | boolean b => trivial
  | nil => trivial

theorem Expr.Spells.isPlain {word : List Token} (spelled : e.Spells word) (formed : e.WellFormed)
    (genuine : ∀ t ∈ word, t.Genuine) (noString : ∀ t ∈ word, t.type ≠ .string) : e.IsPlain := by
  induction spelled with
  | @literal t value stands =>
    have listed : t ∈ [t] := List.mem_singleton_self t
    exact stands.isPlain (genuine t listed).isScanned (noString t listed)
  | grouping opens spelled closes ih =>
    simp only [List.forall_mem_cons, List.forall_mem_append] at genuine noString
    exact ih formed genuine.2.1 noString.2.1
  | unary spelled ih =>
    obtain ⟨listed, _, formed⟩ := formed
    rw [List.forall_mem_cons] at genuine noString
    exact ⟨⟨genuine.1, .inl ((TokenType.isUnary_iff _).mpr listed)⟩, ih formed genuine.2 noString.2⟩
  | binary before behind ihl ihr =>
    obtain ⟨isBinary, _, _, _, leftFormed, rightFormed⟩ := formed
    simp only [List.forall_mem_cons, List.forall_mem_append] at genuine noString
    exact ⟨⟨genuine.2.1, .inr isBinary⟩, ihl leftFormed genuine.1 noString.1,
      ihr rightFormed genuine.2.2 noString.2.2⟩

theorem isPlain_of_parseSource (read : parseSource source = .ok e)
    (noString : ∀ t ∈ (ofSource source).tokens, t.type ≠ .string) : e.IsPlain := by
  obtain ⟨tokens, consists, formed, spelled⟩ := (parseSource_eq_ok_iff source e).mp read
  have among : ∀ t ∈ tokens, t ∈ (ofSource source).tokens :=
    fun t member => mem_tokens_of_consistsOf consists member
  have genuine : ∀ t ∈ tokens, t.Genuine :=
    fun t member => genuine_of_mem_tokens (among t member) (consists.running t member)
  exact spelled.isPlain formed genuine fun t member => noString t (among t member)

/-- Programs without strings are told apart in print. If the trees of two such sources have the same
text, they differ in no more than the lines of their operators, and only then; so they have the same
value, or errors of the same kind at the same operator. -/
theorem print_is_unambiguous {source other : String} {a b : Expr}
    (first : parseSource source = .ok a) (second : parseSource other = .ok b)
    (noString : ∀ t ∈ (ofSource source).tokens, t.type ≠ .string)
    (noString' : ∀ t ∈ (ofSource other).tokens, t.type ≠ .string) :
    (a.text = b.text ↔ a.unlined = b.unlined) ∧
      (a.text = b.text →
        (∃ value, a.evaluate = .ok value ∧ b.evaluate = .ok value) ∨
          ∃ error other, a.evaluate = .error error ∧ b.evaluate = .error other ∧
            error.fault = other.fault ∧ error.operator = other.operator) := by
  have plain := isPlain_of_parseSource first noString
  have plain' := isPlain_of_parseSource second noString'
  have texts := plain.text_eq_iff plain'
  exact ⟨texts, fun same => Expr.evaluate_of_unlined_eq (texts.mp same)⟩

/-- A minus sign in front of one operand, and one between two. In the other source these are on
different lines, and the number is written another way. -/
theorem print_is_unambiguous_minus :
    let source := "-(nil) - 1"
    let other := "-\n(nil) // none\n- 01.0"
    let minus line : Token := ⟨.minus, "-", none, line⟩
    let tree line : Expr := .unary (minus 1) (.binary (.grouping (.literal .nil)) (minus line)
      (.literal (.number (.ofDecimal ⟨1, 0⟩))))
    parseSource source = .ok (tree 1) ∧ parseSource other = .ok (tree 3) ∧
      (∀ t ∈ (ofSource source).tokens, t.type ≠ .string) ∧
      (∀ t ∈ (ofSource other).tokens, t.type ≠ .string) ∧
      (tree 1).text = (tree 3).text ∧
      ∃ error other, (tree 1).evaluate = .error error ∧ (tree 3).evaluate = .error other ∧
        error.fault = other.fault ∧ error.operator = other.operator := by
  intro source other minus tree
  have first : parseSource source = .ok (tree 1) := by decide +kernel
  have second : parseSource other = .ok (tree 3) := by decide +kernel
  have noString : ∀ t ∈ (ofSource source).tokens, t.type ≠ .string := by decide +kernel
  have noString' : ∀ t ∈ (ofSource other).tokens, t.type ≠ .string := by decide +kernel
  obtain ⟨texts, outcomes⟩ := print_is_unambiguous first second noString noString'
  have same : (tree 1).text = (tree 3).text := texts.mpr rfl
  refine ⟨first, second, noString, noString', same, ?_⟩
  rcases outcomes same with ⟨value, found, _⟩ | failures
  · cases found
  · exact failures

end Lox
