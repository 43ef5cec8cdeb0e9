import Lox.Proofs.Number.Pattern
import Lox.Proofs.Number.Same
import Lox.Proofs.Token.Class
import Mathlib.Data.List.TakeWhile

set_option autoImplicit false

namespace Lox

namespace Decimal

section Text

variable {d : Decimal}

def wholeDigits (d : Decimal) : List Char :=
  Nat.toDigits 10 (d.digits / scale d.places)

def fractionDigits (d : Decimal) : List Char :=
  (Nat.toDigits 10 (d.digits % scale d.places)).leftpad d.places '0'

theorem text_of_places_eq_zero (integer : d.places = 0) : d.text = d.wholeDigits := by
  simp only [text, integer, ↓reduceIte, wholeDigits]

theorem text_of_places_ne_zero (fraction : d.places ≠ 0) :
    d.text = d.wholeDigits ++ '.' :: d.fractionDigits := by
  simp only [text, fraction, ↓reduceIte, wholeDigits, fractionDigits]

theorem scale_pos (places : Nat) : 0 < scale places :=
  Nat.pow_pos (by decide)

theorem isDigit_of_mem_toDigits (n : Nat) : ∀ c ∈ Nat.toDigits 10 n, IsDigit c := by
  intro c member
  exact isDigit_iff.mp (Nat.isDigit_of_mem_toDigits (by decide) (by decide) member)

theorem digits_wholeDigits (d : Decimal) : Digits d.wholeDigits :=
  ⟨Nat.toDigits_ne_nil, isDigit_of_mem_toDigits _⟩

theorem length_fractionDigits (fraction : d.places ≠ 0) : d.fractionDigits.length = d.places := by
  have below : d.digits % scale d.places < 10 ^ d.places := Nat.mod_lt _ (scale_pos d.places)
  have fits := (Nat.length_toDigits_le_iff (by decide) (Nat.pos_of_ne_zero fraction)).mpr below
  rw [fractionDigits, List.leftpad, List.length_append, List.length_replicate]
  omega

theorem digits_fractionDigits (fraction : d.places ≠ 0) : Digits d.fractionDigits := by
  constructor
  · intro nothing
    have length := length_fractionDigits fraction
    rw [nothing] at length
    exact fraction length.symm
  · intro c member
    rcases List.mem_append.mp member with padding | member
    · rw [List.eq_of_mem_replicate padding]
      exact ⟨by decide, by decide⟩
    · exact isDigit_of_mem_toDigits _ c member

theorem matches_text (d : Decimal) : Matches d.text .number := by
  by_cases integer : d.places = 0
  · rw [text_of_places_eq_zero integer]
    exact .whole d.digits_wholeDigits
  · rw [text_of_places_ne_zero integer]
    exact .fraction d.digits_wholeDigits (digits_fractionDigits integer)

/-- The digits on both sides of the point, read as one number, are the number of units. -/
theorem ofDigitChars_digits (fraction : d.places ≠ 0) :
    Nat.ofDigitChars 10 (d.wholeDigits ++ d.fractionDigits) 0 = d.digits := by
  have length := length_fractionDigits fraction
  have padded : Nat.ofDigitChars 10 d.fractionDigits 0 = d.digits % scale d.places := by
    rw [fractionDigits, List.leftpad, Nat.ofDigitChars_append, Nat.ofDigitChars_replicate_zero,
      Nat.mul_zero, Nat.ofDigitChars_ten_toDigits]
  calc Nat.ofDigitChars 10 (d.wholeDigits ++ d.fractionDigits) 0
      = Nat.ofDigitChars 10 d.fractionDigits (d.digits / scale d.places) := by
        rw [Nat.ofDigitChars_append, wholeDigits, Nat.ofDigitChars_ten_toDigits]
    _ = scale d.places * (d.digits / scale d.places) + d.digits % scale d.places := by
        rw [Nat.ofDigitChars_eq_ofDigitChars_zero, padded, length]
        rfl
    _ = d.digits := Nat.div_add_mod _ _

theorem noPoint {digits : List Char} (isWhole : Digits digits) :
    ∀ c ∈ digits, decide (c ≠ '.') = true := by
  intro c member
  have isDigit := isWhole.digits c member
  refine decide_eq_true fun point => ?_
  rw [point] at isDigit
  exact absurd isDigit.1 (by decide)

/-- A decimal is read back from its text. -/
theorem ofText_text (d : Decimal) : ofText d.text = d := by
  have front := noPoint d.digits_wholeDigits
  by_cases integer : d.places = 0
  · have whole : Nat.ofDigitChars 10 d.wholeDigits 0 = d.digits := by
      rw [wholeDigits, integer, Nat.ofDigitChars_ten_toDigits]
      exact Nat.div_one _
    have nothing : d.wholeDigits.dropWhile (fun c => decide (c ≠ '.')) = [] :=
      List.dropWhile_eq_nil_iff.mpr front
    rw [text_of_places_eq_zero integer, ofText, List.takeWhile_eq_self_iff.mpr front, nothing,
      List.drop_nil, List.append_nil, whole, List.length_nil, ← integer]
  · have stop (rest : List Char) :
        ('.' :: rest).takeWhile (fun c => decide (c ≠ '.')) = [] := rfl
    have behind (rest : List Char) :
        ('.' :: rest).dropWhile (fun c => decide (c ≠ '.')) = '.' :: rest := rfl
    rw [text_of_places_ne_zero integer, ofText, List.takeWhile_append_of_pos front,
      List.dropWhile_append_of_pos front, stop, behind, List.append_nil, List.drop_one,
      List.tail_cons, ofDigitChars_digits integer, length_fractionDigits integer]

end Text

section Shortest

variable {b : Nat}

theorem pow_five_mul_shiftLeft (n : Nat) : Nat.pow 5 n * 1 <<< n = Nat.pow 10 n := by
  rw [Nat.one_shiftLeft]
  exact (Nat.mul_pow 5 2 n).symm

theorem exactDigits_mul_unitsOfOne (b : Nat) :
    exactDigits b * Pattern.unitsOfOne = Pattern.units b * scale 1074 := by
  rw [exactDigits, Pattern.unitsOfOne, scale]
  -- The powers are too large to be evaluated.
  generalize 1074 = n
  rw [Nat.mul_assoc, pow_five_mul_shiftLeft]

/-- On the finest grid every value is a point. -/
theorem pattern_gridPoint_zero (finite : b ≤ Pattern.infinity) :
    (gridPoint (exactDigits b) 0).pattern = b := by
  have finest : gridPoint (exactDigits b) 0 = ⟨exactDigits b, 1074⟩ := if_neg (by decide)
  rw [finest, pattern, exactDigits_mul_unitsOfOne]
  exact Pattern.nearest_units finite (scale_pos 1074)

/-- What holds of every hit and of the exact value holds of the first hit. -/
theorem firstHit_induction {p : Decimal → Prop} {hit? : Nat → Option Decimal} {exact : Decimal}
    (hits : ∀ k d, hit? k = some d → p d) (holds : p exact) (k : Nat) :
    p (firstHit hit? exact k) := by
  induction k with
  | zero => exact holds
  | succ k ih =>
    rw [firstHit]
    split
    next d hit => exact hits (k + 1) d hit
    next miss => exact ih

theorem pattern_search (finite : b ≤ Pattern.infinity) (k : Nat) : (search b k).pattern = b := by
  rw [search]
  apply firstHit_induction (p := fun d => d.pattern = b)
  · intro k d hit
    exact pattern_of_onGrid? hit
  · exact pattern_gridPoint_zero finite

/-- The shortest decimal of a pattern is rounded to that pattern. -/
theorem pattern_shortest (finite : b ≤ Pattern.infinity) : (shortest b).pattern = b := by
  rw [shortest]
  split
  next zero =>
    have rounded := Pattern.nearest_units (Nat.zero_le Pattern.infinity) (scale_pos 0)
    have nothing : Pattern.units 0 = 0 := by decide
    rw [nothing, Nat.zero_mul] at rounded
    rw [zero, pattern, Nat.zero_mul]
    exact rounded
  next => exact pattern_search finite _

end Shortest

end Decimal

namespace Number

theorem bits_ofDecimal (d : Decimal) : (ofDecimal d).bits.toNat = d.pattern := by
  have limit : d.pattern ≤ 9218868437227405312 := Pattern.nearest_le_infinity _ _
  change (UInt64.ofNat d.pattern).toNat = d.pattern
  rw [UInt64.toNat_ofNat']
  omega

theorem pattern_ofDecimal (d : Decimal) : (ofDecimal d).pattern = d.pattern := by
  have limit : d.pattern ≤ 9218868437227405312 := Pattern.nearest_le_infinity _ _
  rw [pattern, bits_ofDecimal]
  refine Nat.mod_eq_of_lt ?_
  show d.pattern < 9223372036854775808
  omega

variable {a n : Number}

structure IsFinite (n : Number) : Prop where
  notNaN : n.isNaN = false
  notInfinite : n.isInfinite = false

/-- The number without its sign. -/
def magnitude (n : Number) : Number :=
  ofPattern n.pattern

def printedDigits (n : Number) : List Char :=
  (Decimal.shortest n.pattern).text

theorem IsFinite.pattern_le (finite : n.IsFinite) : n.pattern ≤ Pattern.infinity :=
  Nat.not_lt.mp (of_decide_eq_false finite.notNaN)

theorem IsFinite.text_eq (finite : n.IsFinite) (infinity : String) :
    n.text infinity =
      if n.isNegative then "-" ++ String.ofList n.printedDigits
      else String.ofList n.printedDigits := by
  simp only [text, finite.notNaN, finite.notInfinite, Bool.false_eq_true, ↓reduceIte,
    printedDigits]

/-- The printed digits are one numeral, and it stands for the magnitude. -/
theorem IsFinite.literalOf_printedDigits (finite : n.IsFinite) :
    literalOf .number n.printedDigits = some (.number n.magnitude) := by
  simp only [literalOf, printedDigits, Decimal.ofText_text, ofDecimal,
    Decimal.pattern_shortest finite.pattern_le, magnitude]

theorem eq_of_pattern (pattern : a.pattern = n.pattern) (sign : a.isNegative = n.isNegative) :
    a = n := by
  have below := a.bits.toNat_lt
  have below' := n.bits.toNat_lt
  have pattern : a.bits.toNat % 2 ^ 63 = n.bits.toNat % 2 ^ 63 := pattern
  have sign : 2 ^ 63 ≤ a.bits.toNat ↔ 2 ^ 63 ≤ n.bits.toNat := decide_eq_decide.mp sign
  have bits : a.bits = n.bits := by
    apply UInt64.toNat_inj.mp
    omega
  exact congrArg Number.mk bits

theorem toNat_magnitude (n : Number) : n.magnitude.bits.toNat = n.bits.toNat % 2 ^ 63 := by
  have below : n.bits.toNat % 2 ^ 63 < 2 ^ 63 := Nat.mod_lt _ (Nat.two_pow_pos 63)
  change (UInt64.ofNat (n.bits.toNat % 2 ^ 63)).toNat = _
  rw [UInt64.toNat_ofNat']
  omega

theorem pattern_magnitude (n : Number) : n.magnitude.pattern = n.pattern := by
  change n.magnitude.bits.toNat % 2 ^ 63 = n.bits.toNat % 2 ^ 63
  rw [toNat_magnitude, Nat.mod_mod]

theorem isNegative_magnitude (n : Number) : n.magnitude.isNegative = false := by
  apply decide_eq_false
  show ¬ 2 ^ 63 ≤ n.magnitude.bits.toNat
  rw [toNat_magnitude]
  omega

theorem isNegative_neg (n : Number) : (-n).isNegative = !n.isNegative := by
  have below := n.bits.toNat_lt
  have turned : (-n).bits.toNat / 2 ^ 63 = n.bits.toNat / 2 ^ 63 ^^^ 1 := by
    change (n.bits ^^^ 0x8000000000000000).toNat / 2 ^ 63 = _
    rw [UInt64.toNat_xor, Nat.xor_div_two_pow]
    rfl
  show decide (2 ^ 63 ≤ (-n).bits.toNat) = !decide (2 ^ 63 ≤ n.bits.toNat)
  rw [← decide_not, decide_eq_decide]
  by_cases sign : 2 ^ 63 ≤ n.bits.toNat
  · have one : n.bits.toNat / 2 ^ 63 = 1 := by omega
    rw [one, Nat.xor_self] at turned
    omega
  · have zero : n.bits.toNat / 2 ^ 63 = 0 := by omega
    rw [zero, Nat.zero_xor] at turned
    omega

theorem magnitude_eq (positive : n.isNegative = false) : n.magnitude = n := by
  apply eq_of_pattern (pattern_magnitude n)
  rw [isNegative_magnitude, positive]

/-- The minus sign gives a negative number back from its magnitude, also the negative zero. -/
theorem neg_magnitude (negative : n.isNegative = true) : -n.magnitude = n := by
  apply eq_of_pattern
  · rw [pattern_neg, pattern_magnitude]
  · rw [isNegative_neg, isNegative_magnitude, negative]
    rfl

end Number

end Lox
