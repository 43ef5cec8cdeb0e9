import Lox.Proofs.Number.Same
import Lox.Value

set_option autoImplicit false

namespace Lox.Value

variable {v w u : Value}

theorem equals_iff : v.equals w = true ↔
    v = w ∨ ∃ a b, v = number a ∧ w = number b ∧ a.same b = true := by
  constructor
  · intro equal
    cases v with
    | number a =>
      cases w with
      | number b => exact .inr ⟨a, b, rfl, rfl, equal⟩
      | _ => cases equal
    | string s =>
      cases w with
      | string t => exact .inl (congrArg string (eq_of_beq equal))
      | _ => cases equal
    | boolean b =>
      cases w with
      | boolean c => exact .inl (congrArg boolean (eq_of_beq equal))
      | _ => cases equal
    | nil =>
      cases w with
      | nil => exact .inl rfl
      | _ => cases equal
  · rintro (rfl | ⟨a, b, rfl, rfl, same⟩)
    · cases v with
      | number a => exact Number.same_refl a
      | string s => exact beq_self_eq_true s
      | boolean b => exact beq_self_eq_true b
      | nil => rfl
    · exact same

theorem equals_refl (v : Value) : v.equals v = true :=
  equals_iff.mpr (.inl rfl)

theorem equals_symm (equal : v.equals w = true) : w.equals v = true := by
  rw [equals_iff] at equal ⊢
  rcases equal with rfl | ⟨a, b, rfl, rfl, same⟩
  · exact .inl rfl
  · exact .inr ⟨b, a, rfl, rfl, Number.same_symm same⟩

theorem equals_trans (first : v.equals w = true) (second : w.equals u = true) :
    v.equals u = true := by
  rcases equals_iff.mp first with rfl | ⟨a, b, rfl, rfl, same⟩
  · exact second
  · rcases equals_iff.mp second with rfl | ⟨_, c, number, rfl, same'⟩
    · exact first
    · obtain rfl := Value.number.inj number
      exact equals_iff.mpr (.inr ⟨a, c, rfl, rfl, Number.same_trans same same'⟩)

/-- Equality cannot tell apart values that are equal. -/
theorem equals_eq {a b c d : Value} (first : a.equals b = true) (second : c.equals d = true) :
    a.equals c = b.equals d := by
  rw [Bool.eq_iff_iff]
  constructor
  · intro equal
    exact equals_trans (equals_symm first) (equals_trans equal second)
  · intro equal
    exact equals_trans first (equals_trans equal (equals_symm second))

theorem isTruthy_eq (equal : v.equals w = true) : v.isTruthy = w.isTruthy := by
  rcases equals_iff.mp equal with rfl | ⟨a, b, rfl, rfl, same⟩
  · rfl
  · rfl

theorem text_eq (equal : v.equals w = true) : v.text = w.text := by
  rcases equals_iff.mp equal with rfl | ⟨a, b, rfl, rfl, same⟩
  · rfl
  · exact Number.text_eq same "Infinity"

end Lox.Value
