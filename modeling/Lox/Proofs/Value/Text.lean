import Lox.Proofs.Expr.Kind
import Lox.Proofs.Number.Text
import Lox.Proofs.Value.Equality

set_option autoImplicit false

namespace Lox

theorem startsApart_Infinity : StartsApart "Infinity" :=
  .of_isLetter (by decide : "Infinity".toList = 'I' :: "nfinity".toList)
    (.inl ⟨by decide, by decide⟩) (by decide)

def Number.quietNaN : Number :=
  ⟨0x7FF8000000000000⟩

theorem Number.ieeeEq_self_of_isNaN {a : Number} (isNaN : a.isNaN = true) :
    a.ieeeEq a = false := by
  have same : a.same quietNaN = true := same_iff.mpr (.inr ⟨isNaN, by decide⟩)
  rw [ieeeEq, toFloat_eq same]
  decide

namespace Value

theorem equals_iff_kind_text (v w : Value) :
    v.equals w = true ↔ v.kind = w.kind ∧ v.text = w.text := by
  cases v with
  | number a =>
    cases w with
    | number b =>
      have texts : a.text "Infinity" = b.text "Infinity" ↔ a.same b = true :=
        Number.text_eq_iff startsApart_Infinity a b
      simp [equals, kind, text, textWith, texts]
    | _ => simp [equals, kind]
  | string s =>
    cases w with
    | string t => simp [equals, kind, text, textWith]
    | _ => simp [equals, kind]
  | boolean b =>
    cases w with
    | boolean c =>
      revert b c
      decide
    | _ => simp [equals, kind]
  | nil =>
    cases w with
    | nil => simp [equals]
    | _ => simp [equals, kind]

/-- Equality is sameness of kind and text. So it is an equivalence, on NaNs too: all of them are
equal, whatever their signs and payloads, and the two zeros are not. The equality that compares
numbers as IEEE 754 says is none: by that every NaN differs from itself, and the zeros are equal. -/
theorem equality_is_sameness_in_print :
    (∀ v w : Value, v.equals w = true ↔ v.kind = w.kind ∧ v.text = w.text) ∧
      Equivalence (fun v w : Value => v.equals w = true) ∧
      (∀ a b : Number, a.isNaN = true → b.isNaN = true → (number a).equals (number b) = true) ∧
      (number ⟨0⟩).equals (number (-⟨0⟩)) = false ∧
      (∀ a : Number, a.isNaN = true → (number a).agrees (number a) = false) ∧
      (number ⟨0⟩).agrees (number (-⟨0⟩)) = true := by
  refine ⟨equals_iff_kind_text, ⟨equals_refl, equals_symm, equals_trans⟩, ?_, by decide, ?_,
    by decide⟩
  · intro a b isNaN isNaN'
    exact Number.same_iff.mpr (.inr ⟨isNaN, isNaN'⟩)
  · intro a isNaN
    exact Number.ieeeEq_self_of_isNaN isNaN

/-- Two NaNs that differ in their signs and payloads. -/
theorem equality_is_sameness_in_print_payload :
    let a : Number := ⟨0x7FF8000000000000⟩
    let b : Number := ⟨0xFFF8000000000001⟩
    a.isNaN = true ∧ b.isNaN = true ∧ (number a).equals (number b) = true ∧
      (number a).text = (number b).text ∧ (number b).agrees (number b) = false := by
  intro a b
  obtain ⟨sameness, _, all, _, different, _⟩ := equality_is_sameness_in_print
  have isNaN : a.isNaN = true := by decide
  have isNaN' : b.isNaN = true := by decide
  have equal := all a b isNaN isNaN'
  exact ⟨isNaN, isNaN', equal, ((sameness _ _).mp equal).2, different b isNaN'⟩

end Value

end Lox
