set_option autoImplicit false

namespace Lox

/-- The ranges of code points with the Unicode property White_Space, each with its first and its
last. -/
def whiteSpaceRanges : List (Nat × Nat) :=
  [(0x09, 0x0D), (0x20, 0x20), (0x85, 0x85), (0xA0, 0xA0), (0x1680, 0x1680), (0x2000, 0x200A),
    (0x2028, 0x2029), (0x202F, 0x202F), (0x205F, 0x205F), (0x3000, 0x3000)]

def isWhiteSpace (c : Char) : Bool :=
  whiteSpaceRanges.any fun (first, last) => decide (first ≤ c.toNat ∧ c.toNat ≤ last)

/-- A text without the white space at its start and at its end. -/
def trimmed (text : List Char) : List Char :=
  ((text.dropWhile isWhiteSpace).reverse.dropWhile isWhiteSpace).reverse

def whiteSpace : List Char :=
  ['\u0009', '\u000A', '\u000B', '\u000C', '\u000D', '\u0020', '\u0085', '\u00A0', '\u1680',
    '\u2000', '\u2001', '\u2002', '\u2003', '\u2004', '\u2005', '\u2006', '\u2007', '\u2008',
    '\u2009', '\u200A', '\u2028', '\u2029', '\u202F', '\u205F', '\u3000']

theorem isWhiteSpace_iff (c : Char) : isWhiteSpace c = true ↔ c ∈ whiteSpace := by
  simp only [isWhiteSpace, whiteSpaceRanges, whiteSpace, List.any_cons, List.any_nil,
    Bool.or_eq_true, Bool.false_eq_true, decide_eq_true_eq, List.mem_cons, List.not_mem_nil,
    or_false, ← Char.toNat_inj, Char.reduceToNat]
  omega

theorem dropWhile_eq_iff {p : Char → Bool} {text word : List Char} (nonempty : word ≠ []) :
    text.dropWhile p = word ↔
      p (word.head nonempty) = false ∧
        ∃ before, text = before ++ word ∧ ∀ c ∈ before, p c = true := by
  constructor
  · rintro rfl
    have parts : text.takeWhile p ++ text.dropWhile p = text := List.takeWhile_append_dropWhile
    have stops := List.head?_dropWhile_not p text
    rw [List.head?_eq_some_head nonempty] at stops
    exact ⟨stops, text.takeWhile p, parts.symm, List.all_eq_true.mp List.all_takeWhile⟩
  · rintro ⟨stops, before, rfl, inside⟩
    rw [List.dropWhile_append_of_pos inside]
    obtain ⟨c, rest, rfl⟩ := List.exists_cons_of_ne_nil nonempty
    exact List.dropWhile_cons_of_neg (Bool.eq_false_iff.mp stops)

/-- Trimming leaves a word behind if and only if white space stands around it and none at its
ends. -/
theorem trimmed_eq_iff {text word : List Char} (nonempty : word ≠ []) :
    trimmed text = word ↔
      isWhiteSpace (word.head nonempty) = false ∧ isWhiteSpace (word.getLast nonempty) = false ∧
        ∃ before behind, text = before ++ (word ++ behind) ∧
          ∀ c ∈ before ++ behind, isWhiteSpace c = true := by
  have reversed : word.reverse ≠ [] := mt List.reverse_eq_nil_iff.mp nonempty
  rw [trimmed, List.reverse_eq_iff, dropWhile_eq_iff reversed, List.head_reverse]
  constructor
  · rintro ⟨stopsBehind, behind, parts, spaceBehind⟩
    have front : text.dropWhile isWhiteSpace = word ++ behind.reverse := by
      rw [← List.reverse_reverse (text.dropWhile isWhiteSpace), parts, List.reverse_append,
        List.reverse_reverse]
    have longer : word ++ behind.reverse ≠ [] := List.append_ne_nil_of_left_ne_nil nonempty _
    obtain ⟨stops, before, whole, space⟩ := (dropWhile_eq_iff longer).mp front
    rw [List.head_append_left nonempty] at stops
    refine ⟨stops, stopsBehind, before, behind.reverse, whole, ?_⟩
    intro c member
    rcases List.mem_append.mp member with inBefore | inBehind
    · exact space c inBefore
    · exact spaceBehind c (List.mem_reverse.mp inBehind)
  · rintro ⟨stops, stopsBehind, before, behind, whole, space⟩
    have longer : word ++ behind ≠ [] := List.append_ne_nil_of_left_ne_nil nonempty _
    have front : text.dropWhile isWhiteSpace = word ++ behind := by
      apply (dropWhile_eq_iff longer).mpr
      rw [List.head_append_left nonempty]
      exact ⟨stops, before, whole, fun c member => space c (List.mem_append_left _ member)⟩
    refine ⟨stopsBehind, behind.reverse, ?_, ?_⟩
    · rw [front, List.reverse_append]
    · intro c member
      exact space c (List.mem_append_right _ (List.mem_reverse.mp member))

end Lox
