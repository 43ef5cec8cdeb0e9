import Lox.Proofs.Number.Decimal

set_option autoImplicit false

namespace Lox

/-- The word starts neither like a numeral, with a sign or without, nor like the text of a NaN. -/
def StartsApart (word : String) : Prop :=
  ∃ c rest, word.toList = c :: rest ∧ ¬ IsDigit c ∧ c ≠ '-' ∧ c ≠ 'N'

theorem StartsApart.of_isLetter {word : String} {c : Char} {rest : List Char}
    (starts : word.toList = c :: rest) (letter : IsLetter c) (other : c ≠ 'N') :
    StartsApart word := by
  refine ⟨c, rest, starts, not_isDigit letter, ?_, other⟩
  rintro rfl
  exact absurd (isWordStart_iff.mpr letter) (by decide)

theorem Decimal.exists_text_eq_cons (d : Decimal) : ∃ c rest, d.text = c :: rest ∧ IsDigit c := by
  have ⟨nonempty, digits⟩ := d.digits_wholeDigits
  obtain ⟨c, more, whole⟩ := List.exists_cons_of_ne_nil nonempty
  have isDigit : IsDigit c := digits c (whole ▸ List.mem_cons_self)
  by_cases integer : d.places = 0
  · exact ⟨c, more, by rw [text_of_places_eq_zero integer, whole], isDigit⟩
  · exact ⟨c, more ++ '.' :: d.fractionDigits,
      by rw [text_of_places_ne_zero integer, whole, List.cons_append], isDigit⟩

theorem Decimal.isDigit_or_point_of_mem_text (d : Decimal) :
    ∀ c ∈ d.text, IsDigit c ∨ c = '.' := by
  intro c member
  by_cases integer : d.places = 0
  · rw [text_of_places_eq_zero integer] at member
    exact .inl (d.digits_wholeDigits.digits c member)
  · rw [text_of_places_ne_zero integer] at member
    rcases List.mem_append.mp member with whole | point
    · exact .inl (d.digits_wholeDigits.digits c whole)
    · rcases List.mem_cons.mp point with same | fraction
      · exact .inr same
      · exact .inl ((digits_fractionDigits integer).digits c fraction)

theorem Decimal.text_injective : Function.Injective Decimal.text := by
  intro d e same
  rw [← d.ofText_text, same, e.ofText_text]

theorem Decimal.shortest_injective {p q : Nat} (first : p ≤ Pattern.infinity)
    (second : q ≤ Pattern.infinity) (same : shortest p = shortest q) : p = q := by
  rw [← pattern_shortest first, same, pattern_shortest second]

namespace Number

variable {a b n : Number} {infinity : String}

def magnitudeText (n : Number) (infinity : String) : List Char :=
  if n.isInfinite then infinity.toList else n.printedDigits

theorem text_of_isNaN (isNaN : n.isNaN = true) (infinity : String) : n.text infinity = "NaN" := by
  rw [text, if_pos isNaN]

theorem toList_text (notNaN : n.isNaN = false) (infinity : String) :
    (n.text infinity).toList =
      if n.isNegative then '-' :: n.magnitudeText infinity else n.magnitudeText infinity := by
  have magnitude : (if n.isInfinite then infinity
      else String.ofList (Decimal.shortest n.pattern).text).toList = n.magnitudeText infinity := by
    rw [magnitudeText]
    split
    · rfl
    · exact String.toList_ofList
  simp only [text, notNaN, Bool.false_eq_true, ↓reduceIte]
  split
  · rw [String.toList_append, magnitude]
    rfl
  · exact magnitude

theorem exists_magnitudeText_eq_cons (apart : StartsApart infinity) (n : Number) :
    ∃ c rest, n.magnitudeText infinity = c :: rest ∧ c ≠ '-' ∧ c ≠ 'N' ∧
      (n.isInfinite = true ↔ ¬ IsDigit c) := by
  rw [magnitudeText]
  split
  next isInfinite =>
    obtain ⟨c, rest, word, noDigit, noSign, noNaN⟩ := apart
    exact ⟨c, rest, word, noSign, noNaN, by simp [noDigit, isInfinite]⟩
  next isFinite =>
    obtain ⟨c, rest, digits, isDigit⟩ := (Decimal.shortest n.pattern).exists_text_eq_cons
    refine ⟨c, rest, digits, ?_, ?_, by simp [isDigit, isFinite]⟩
    · rintro rfl
      exact absurd isDigit.1 (by decide)
    · rintro rfl
      exact absurd isDigit.2 (by decide)

theorem pattern_eq_of_magnitudeText (apart : StartsApart infinity) (first : a.isNaN = false)
    (second : b.isNaN = false) (same : a.magnitudeText infinity = b.magnitudeText infinity) :
    a.pattern = b.pattern := by
  obtain ⟨c, rest, text, _, _, digit⟩ := exists_magnitudeText_eq_cons apart a
  obtain ⟨d, more, text', _, _, digit'⟩ := exists_magnitudeText_eq_cons apart b
  obtain ⟨rfl, _⟩ := List.cons.inj (text.symm.trans (same.trans text'))
  have both : a.isInfinite = b.isInfinite := Bool.eq_iff_iff.mpr (digit.trans digit'.symm)
  cases infinite : a.isInfinite with
  | true =>
    have pattern : a.pattern = Pattern.infinity := of_decide_eq_true infinite
    have pattern' : b.pattern = Pattern.infinity := of_decide_eq_true (both.symm.trans infinite)
    rw [pattern, pattern']
  | false =>
    rw [infinite] at both
    simp only [magnitudeText, infinite, ← both, Bool.false_eq_true, ↓reduceIte] at same
    exact Decimal.shortest_injective (IsFinite.pattern_le ⟨first, infinite⟩)
      (IsFinite.pattern_le ⟨second, both.symm⟩) (Decimal.text_injective same)

/-- A minus sign stands in front of the negative numbers alone. -/
theorem head?_text_eq_minus_iff (apart : StartsApart infinity) (notNaN : n.isNaN = false) :
    (n.text infinity).toList.head? = some '-' ↔ n.isNegative = true := by
  obtain ⟨c, rest, text, noSign, _⟩ := exists_magnitudeText_eq_cons apart n
  rw [toList_text notNaN, text]
  split
  next negative => simp only [List.head?_cons, negative]
  next positive => simp [noSign, positive]

/-- The text of a number that is no NaN is that of no other number. -/
theorem eq_of_text (apart : StartsApart infinity) (first : a.isNaN = false)
    (second : b.isNaN = false) (same : a.text infinity = b.text infinity) : a = b := by
  have sign := head?_text_eq_minus_iff apart first
  rw [same, head?_text_eq_minus_iff apart second, ← Bool.eq_iff_iff] at sign
  have same := congrArg String.toList same
  rw [toList_text first, toList_text second, sign] at same
  have magnitude : a.magnitudeText infinity = b.magnitudeText infinity := by
    split at same
    next => exact (List.cons.inj same).2
    next => exact same
  exact eq_of_pattern (pattern_eq_of_magnitudeText apart first second magnitude) sign.symm

theorem text_ne_of_isNaN (apart : StartsApart infinity) (isNaN : a.isNaN = true)
    (notNaN : b.isNaN = false) : a.text infinity ≠ b.text infinity := by
  obtain ⟨c, rest, text, _, noNaN, _⟩ := exists_magnitudeText_eq_cons apart b
  intro same
  have same := congrArg String.toList same
  rw [text_of_isNaN isNaN, toList_text notNaN] at same
  split at same
  next => exact absurd (List.cons.inj same).1 (by decide)
  next =>
    rw [text] at same
    exact noNaN (List.cons.inj same).1.symm

theorem mem_text (notNaN : n.isNaN = false) (infinity : String) :
    ∀ c ∈ (n.text infinity).toList, IsDigit c ∨ c = '.' ∨ c = '-' ∨ c ∈ infinity.toList := by
  have magnitude : ∀ c ∈ n.magnitudeText infinity,
      IsDigit c ∨ c = '.' ∨ c = '-' ∨ c ∈ infinity.toList := by
    intro c member
    rw [magnitudeText] at member
    split at member
    next => exact .inr (.inr (.inr member))
    next =>
      rcases Decimal.isDigit_or_point_of_mem_text _ c member with digit | point
      · exact .inl digit
      · exact .inr (.inl point)
  intro c member
  rw [toList_text notNaN] at member
  split at member
  next =>
    rcases List.mem_cons.mp member with sign | member
    · exact .inr (.inr (.inl sign))
    · exact magnitude c member
  next => exact magnitude c member

theorem text_eq_iff (apart : StartsApart infinity) (a b : Number) :
    a.text infinity = b.text infinity ↔ a.same b = true := by
  refine ⟨fun same => ?_, fun same => text_eq same infinity⟩
  rw [same_iff]
  cases first : a.isNaN with
  | true =>
    cases second : b.isNaN with
    | true => exact .inr ⟨rfl, rfl⟩
    | false => exact absurd same (text_ne_of_isNaN apart first second)
  | false =>
    cases second : b.isNaN with
    | true => exact absurd same.symm (text_ne_of_isNaN apart second first)
    | false => exact .inl (eq_of_text apart first second same)

end Number

end Lox
