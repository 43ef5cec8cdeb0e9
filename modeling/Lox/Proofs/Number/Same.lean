import Lox.Number.Basic
import Mathlib.Data.Nat.Bitwise

set_option autoImplicit false

namespace Lox.Number

open Float.Model

variable {a b c d : Number}

theorem same_iff : a.same b = true ↔ a = b ∨ a.isNaN = true ∧ b.isNaN = true := by
  have bits : a.bits = b.bits ↔ a = b := by
    constructor
    · intro equal
      exact congrArg Number.mk equal
    · rintro rfl
      rfl
  simp only [same, Bool.or_eq_true, beq_iff_eq, Bool.and_eq_true, bits]

theorem same_refl (a : Number) : a.same a = true :=
  same_iff.mpr (.inl rfl)

theorem same_symm (same : a.same b = true) : b.same a = true := by
  rw [same_iff] at same ⊢
  exact same.imp Eq.symm And.symm

theorem isNaN_eq (same : a.same b = true) : a.isNaN = b.isNaN := by
  rcases same_iff.mp same with rfl | ⟨first, second⟩
  · rfl
  · rw [first, second]

theorem same_trans (first : a.same b = true) (second : b.same c = true) : a.same c = true := by
  rw [same_iff] at first ⊢
  rcases first with rfl | ⟨isNaN, isNaN'⟩
  · exact same_iff.mp second
  · exact .inr ⟨isNaN, isNaN_eq second ▸ isNaN'⟩

/-- A NaN has the highest exponent and a fraction other than zero. -/
theorem unpack_of_isNaN (isNaN : a.isNaN = true) :
    UnpackedFloat.unpack .binary64 a.bits.toBitVec = .notANumber := by
  have above : 9218868437227405312 < a.bits.toNat % 9223372036854775808 :=
    of_decide_eq_true isNaN
  have exponent : @UnpackedFloat.unpackExponent .binary64 a.bits.toBitVec = -1#11 := by
    apply BitVec.eq_of_toNat_eq
    change (a.bits.toNat >>> 52) % 2 ^ 11 = 2047
    rw [Nat.shiftRight_eq_div_pow]
    omega
  have fraction : @UnpackedFloat.unpackMantissa .binary64 a.bits.toBitVec ≠ 0#52 := by
    intro zero
    have value : (a.bits.toNat >>> 0) % 2 ^ 52 = 0 := congrArg BitVec.toNat zero
    rw [Nat.shiftRight_zero] at value
    omega
  delta UnpackedFloat.unpack
  simp only [exponent, fraction, ↓reduceIte]

/-- Numbers that are the same are one operand of arithmetic and order. -/
theorem toFloat_eq (same : a.same b = true) : a.toFloat = b.toFloat := by
  rcases same_iff.mp same with rfl | ⟨first, second⟩
  · rfl
  · simp only [toFloat, Float.ofBits, Float.Model.ofBits, unpack_of_isNaN first,
      unpack_of_isNaN second]

section Arithmetic

variable (first : a.same b = true) (second : c.same d = true)

include first second

theorem same_operation (operation : Float → Float → Float) :
    (ofFloat (operation a.toFloat c.toFloat)).same (ofFloat (operation b.toFloat d.toFloat)) =
      true := by
  rw [toFloat_eq first, toFloat_eq second]
  exact same_refl _

theorem lt_eq : a.lt c = b.lt d := by
  rw [lt, lt, toFloat_eq first, toFloat_eq second]

theorem le_eq : a.le c = b.le d := by
  rw [le, le, toFloat_eq first, toFloat_eq second]

end Arithmetic

theorem pattern_neg (a : Number) : (-a).pattern = a.pattern := by
  change (a.bits ^^^ 0x8000000000000000).toNat % 2 ^ 63 = a.bits.toNat % 2 ^ 63
  rw [UInt64.toNat_xor, Nat.xor_mod_two_pow]
  exact Nat.xor_zero _

theorem isNaN_neg (a : Number) : (-a).isNaN = a.isNaN := by
  rw [isNaN, isNaN, pattern_neg]

theorem same_neg (same : a.same b = true) : (-a).same (-b) = true := by
  rcases same_iff.mp same with rfl | ⟨first, second⟩
  · exact same_refl _
  · rw [same_iff, isNaN_neg, isNaN_neg]
    exact .inr ⟨first, second⟩

theorem text_eq (same : a.same b = true) (infinity : String) :
    a.text infinity = b.text infinity := by
  rcases same_iff.mp same with rfl | ⟨first, second⟩
  · rfl
  · rw [text, text, if_pos first, if_pos second]

end Lox.Number
